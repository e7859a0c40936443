import CertKeeper.Proofs.Cluster.World

/-!
# Pairs of runs

`Procedure.Pairs` compares what two procedures come to in two worlds: both end, or both stop. The rules
of this module take two procedures of the same shape apart at once, so that they only ask what two
worlds answer to one request each.
-/

namespace CertKeeper

namespace World

variable {α β : Type}

@[simp]
theorem run_pure (a : α) (w : World) :
  run (pure a) w = (.ok a, w)
  := rfl

@[simp]
theorem run_throw (e : Stop) (w : World) :
  run (throw e : Procedure α) w = (.error e, w)
  := rfl

@[simp]
theorem run_ask (r : Request) (w : World) :
  run (Procedure.ask r) w = (.ok (handle r w).1, (handle r w).2)
  := rfl

/-- The second part of a sequence is carried out where the first part ends. -/
theorem run_bind (p : Procedure α) (f : α → Procedure β) (w : World) :
  run (p >>= f) w = match run p w with
    | (.ok a, w') => run (f a) w'
    | (.error e, w') => (.error e, w')
  := by
  apply (Program.run_bind handle p.run _ w).trans
  cases hrun : Program.run handle p.run w with
  | mk result w' =>
    rw [show run p w = (result, w') from hrun]
    cases result <;> rfl

/-- A handler is carried out where a procedure stops. -/
theorem run_tryCatch (p : Procedure α) (handler : Stop → Procedure α) (w : World) :
  run (tryCatch p handler) w = match run p w with
    | (.ok a, w') => (.ok a, w')
    | (.error e, w') => run (handler e) w'
  := by
  apply (Program.run_bind handle p.run _ w).trans
  cases hrun : Program.run handle p.run w with
  | mk result w' =>
    rw [show run p w = (result, w') from hrun]
    cases result <;> rfl

end World

namespace Procedure

variable {α β γ δ : Type} {w v : World}
variable {ok : α → β → World → World → Prop} {stop : Stop → Stop → World → World → Prop}

/-- Carried out in two worlds, two procedures both end with `ok` or both stop with `stop`. -/
def Pairs (p : Procedure α) (q : Procedure β) (ok : α → β → World → World → Prop)
    (stop : Stop → Stop → World → World → Prop) (w v : World) : Prop :=
  match World.run p w, World.run q v with
  | (.ok a, w'), (.ok b, v') => ok a b w' v'
  | (.error e, w'), (.error e', v') => stop e e' w' v'
  | _, _ => False

theorem pairs_pure {a : α} {b : β} (h : ok a b w v) :
  Pairs (pure a) (pure b) ok stop w v
  := h

theorem pairs_throw {e e' : Stop} (h : stop e e' w v) :
  Pairs (throw e : Procedure α) (throw e' : Procedure β) ok stop w v
  := h

theorem pairs_ask {r r' : Request} {ok : r.Answer → r'.Answer → World → World → Prop}
    (h : ok (World.handle r w).1 (World.handle r' v).1 (World.handle r w).2 (World.handle r' v).2) :
  Pairs (ask r) (ask r') ok stop w v
  := h

/-- What two procedures come to may be said of runs of them. -/
theorem pairs_of_run {p : Procedure α} {q : Procedure β} {a : α} {b : β} {w' v' : World}
    (hp : World.run p w = (.ok a, w')) (hq : World.run q v = (.ok b, v')) (h : ok a b w' v') :
  Pairs p q ok stop w v
  := by
  rw [Pairs, hp, hq]
  apply h

theorem Pairs.mono {p : Procedure α} {q : Procedure β} {ok' : α → β → World → World → Prop}
    {stop' : Stop → Stop → World → World → Prop} (h : Pairs p q ok stop w v)
    (hok : ∀ {a b w' v'}, ok a b w' v' → ok' a b w' v')
    (hstop : ∀ {e e' w' v'}, stop e e' w' v' → stop' e e' w' v') :
  Pairs p q ok' stop' w v
  := by
  unfold Pairs at *
  split at h
  · apply hok h
  · apply hstop h
  · cases h

/-- The second parts of two sequences are compared where the first parts end. -/
theorem pairs_bind {p : Procedure α} {q : Procedure β} {f : α → Procedure γ} {g : β → Procedure δ}
    {ok : γ → δ → World → World → Prop}
    (h : Pairs p q (fun a b w' v' => Pairs (f a) (g b) ok stop w' v') stop w v) :
  Pairs (p >>= f) (q >>= g) ok stop w v
  := by
  unfold Pairs at h
  rw [Pairs, World.run_bind, World.run_bind]
  generalize World.run p w = first at h
  generalize World.run q v = second at h
  obtain ⟨e | a, w'⟩ := first <;> obtain ⟨e' | b, v'⟩ := second
  · apply h
  · cases h
  · cases h
  · apply h

/-- Two handlers are compared where the procedures stop. -/
theorem pairs_tryCatch {p : Procedure α} {q : Procedure β} {handler : Stop → Procedure α}
    {handler' : Stop → Procedure β}
    (h : Pairs p q ok (fun e e' w' v' => Pairs (handler e) (handler' e') ok stop w' v') w v) :
  Pairs (tryCatch p handler) (tryCatch q handler') ok stop w v
  := by
  unfold Pairs at h
  rw [Pairs, World.run_tryCatch, World.run_tryCatch]
  generalize World.run p w = first at h
  generalize World.run q v = second at h
  obtain ⟨e | a, w'⟩ := first <;> obtain ⟨e' | b, v'⟩ := second
  · apply h
  · cases h
  · cases h
  · apply h

/-- What two procedures come to in two worlds is what their runs come to. -/
theorem pairs_iff {p : Procedure α} {q : Procedure β} :
  Pairs p q ok stop w v ↔ match World.run p w, World.run q v with
    | (.ok a, w'), (.ok b, v') => ok a b w' v'
    | (.error e, w'), (.error e', v') => stop e e' w' v'
    | _, _ => False
  := Iff.rfl

attribute [irreducible] Pairs

/-- Two procedures come to what each of them leads to, if one of them does not stop where the other one
ends. -/
theorem pairs_of_agree {p : Procedure α} {q : Procedure β} {left : α → World → Prop}
    {right : β → World → Prop} {leftStop rightStop : Stop → World → Prop} (hp : p.Leads left leftStop w)
    (hq : q.Leads right rightStop v) (hended : ∀ {a e w' v'}, left a w' → ¬ rightStop e v')
    (hstopped : ∀ {e b w' v'}, leftStop e w' → ¬ right b v') :
  Pairs p q (fun a b w' v' => left a w' ∧ right b v') (fun e e' w' v' => leftStop e w' ∧ rightStop e' v')
    w v
  := by
  rw [leads_iff] at hp hq
  rw [pairs_iff]
  generalize World.run p w = first at hp
  generalize World.run q v = second at hq
  obtain ⟨e | a, w'⟩ := first <;> obtain ⟨e' | b, v'⟩ := second
  · exact ⟨hp, hq⟩
  · apply hstopped hp hq
  · apply hended hp hq
  · exact ⟨hp, hq⟩

/-- Two procedures that both end come to what follows from what each of them ends with. -/
theorem pairs_of_leads {p : Procedure α} {q : Procedure β} {left : α → World → Prop}
    {right : β → World → Prop} (hp : p.Leads left (fun _ _ => False) w)
    (hq : q.Leads right (fun _ _ => False) v)
    (h : ∀ {a b w' v'}, left a w' → right b v' → ok a b w' v') :
  Pairs p q ok stop w v
  := by
  apply (pairs_of_agree hp hq (fun _ => id) False.elim).mono
  · rintro a b w' v' ⟨ha, hb⟩
    apply h ha hb
  · rintro e e' w' v' ⟨hstop, -⟩
    cases hstop

/-- What two procedures come to together, the second one leads to beside a run of the first. -/
theorem Pairs.leads {p : Procedure α} {q : Procedure β} (h : Pairs p q ok stop w v) :
  q.Leads
    (fun b v' => World.run q v = (.ok b, v') ∧ ∃ a w', World.run p w = (.ok a, w') ∧ ok a b w' v')
    (fun e' v' => ∃ e w', World.run p w = (.error e, w') ∧ stop e e' w' v') v
  := by
  rw [leads_iff]
  rw [pairs_iff] at h
  generalize World.run p w = first at h
  generalize World.run q v = second at h
  obtain ⟨e | a, w'⟩ := first <;> obtain ⟨e' | b, v'⟩ := second
  · exact ⟨e, w', rfl, h⟩
  · cases h
  · cases h
  · exact ⟨rfl, a, w', rfl, h⟩

/-- What each of two procedures leads to is part of what they come to together. -/
theorem Pairs.and_leads {p : Procedure α} {q : Procedure β} {left : α → World → Prop}
    {right : β → World → Prop} (h : Pairs p q ok stop w v) (hp : p.Leads left (fun _ _ => True) w)
    (hq : q.Leads right (fun _ _ => True) v) :
  Pairs p q (fun a b w' v' => ok a b w' v' ∧ left a w' ∧ right b v') stop w v
  := by
  rw [leads_iff] at hp hq
  rw [pairs_iff] at *
  generalize World.run p w = first at *
  generalize World.run q v = second at *
  obtain ⟨e | a, w'⟩ := first <;> obtain ⟨e' | b, v'⟩ := second
  · apply h
  · cases h
  · cases h
  · exact ⟨h, hp, hq⟩

theorem pairs_ofResult {r : Except Error α} {ok : α → α → World → World → Prop}
    (hok : ∀ a, r = .ok a → ok a a w v) (hstop : ∀ e, r = .error e → stop (.error e) (.error e) w v) :
  Pairs (ofResult r) (ofResult r) ok stop w v
  := by
  cases r with
  | ok a => apply pairs_pure (hok a rfl)
  | error e => apply pairs_throw (hstop e rfl)

theorem pairs_ofComputation {r : Except Stop α} {ok : α → α → World → World → Prop}
    (hok : ∀ a, r = .ok a → ok a a w v) (hstop : ∀ e, r = .error e → stop e e w v) :
  Pairs (ofComputation r) (ofComputation r) ok stop w v
  := by
  cases r with
  | ok a => apply pairs_pure (hok a rfl)
  | error e => apply pairs_throw (hstop e rfl)

/-- Procedures for the members of a list keep a relation between two worlds if each of them does. -/
theorem pairs_forM {ι : Type} {l : List ι} {f g : ι → Procedure Unit} {related : World → World → Prop}
    (hf : ∀ i ∈ l, ∀ w v, related w v → Pairs (f i) (g i) (fun _ _ => related) stop w v)
    (h : related w v) :
  Pairs (l.forM f) (l.forM g) (fun _ _ => related) stop w v
  := by
  induction l generalizing w v with
  | nil => apply pairs_pure h
  | cons i rest ih =>
    apply pairs_bind
    apply (hf i List.mem_cons_self w v h).mono
    · intro _ _ w' v' h'
      apply ih (fun j hj => hf j (List.mem_cons_of_mem _ hj)) h'
    · intro e e' w' v' h'
      apply h'

end Procedure

end CertKeeper
