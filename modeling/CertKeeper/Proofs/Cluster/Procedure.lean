import CertKeeper.Cluster.Request
import CertKeeper.Proofs.Program.Safety

/-!
# Safety of procedures

A procedure either ends with a result or stops. `Procedure.Safe` says of both what holds
then, and of every state after a request that it has an invariant. The rules of this
module take a procedure apart: one for sequences, one for handlers, and one for each of
the small procedures that others are made of.
-/

namespace CertKeeper.Procedure

variable {α β σ : Type} {step : Surroundings Request.Answer σ} {keep : σ → Prop}

/-- What holds at the end of a procedure, whether it has a result or stopped. -/
def Ends (ok : α → σ → Prop) (stop : Stop → σ → Prop) : Except Stop α → σ → Prop
  | .ok a, s => ok a s
  | .error e, s => stop e s

/-- However it is answered, the procedure is in a state with `keep` after each request, and
ends with `ok` or stops with `stop`. -/
def Safe (step : Surroundings Request.Answer σ) (keep : σ → Prop) (p : Procedure α)
    (ok : α → σ → Prop) (stop : Stop → σ → Prop) (s : σ) : Prop :=
  Program.Safe step keep p.run (Ends ok stop) s

theorem safe_iff {p : Procedure α} {ok : α → σ → Prop} {stop : Stop → σ → Prop} {s : σ} :
  Safe step keep p ok stop s ↔ Program.Safe step keep p.run (Ends ok stop) s
  := Iff.rfl

theorem safe_pure {a : α} {ok : α → σ → Prop} {stop : Stop → σ → Prop} {s : σ} (h : ok a s) :
  Safe step keep (pure a) ok stop s
  := h

theorem safe_throw {e : Stop} {ok : α → σ → Prop} {stop : Stop → σ → Prop} {s : σ}
    (h : stop e s) :
  Safe step keep (throw e : Procedure α) ok stop s
  := h

theorem safe_fail {e : Error} {ok : α → σ → Prop} {stop : Stop → σ → Prop} {s : σ}
    (h : stop (.error e) s) :
  Safe step keep (fail e : Procedure α) ok stop s
  := h

/-- What a procedure ends or stops with may be weakened. -/
theorem safe_weaken {p : Procedure α} {ok ok' : α → σ → Prop} {stop stop' : Stop → σ → Prop} {s : σ}
    (h : Safe step keep p ok stop s) (hok : ∀ a s', ok a s' → ok' a s')
    (hstop : ∀ e s', stop e s' → stop' e s') :
  Safe step keep p ok' stop' s
  := by
  apply Program.Safe.mono h
  intro r s' hr
  cases r with
  | ok a => apply hok a s' hr
  | error e => apply hstop e s' hr

/-- What a procedure with a result ends with may be weakened. -/
theorem safe_mono {p : Procedure α} {ok ok' : α → σ → Prop} {stop : Stop → σ → Prop} {s : σ}
    (h : Safe step keep p ok stop s) (hok : ∀ a s', ok a s' → ok' a s') :
  Safe step keep p ok' stop s
  := safe_weaken h hok (fun _ _ hs => hs)

/-- An invariant may be weakened. -/
theorem safe_keep_mono {keep' : σ → Prop} {p : Procedure α} {ok : α → σ → Prop}
    {stop : Stop → σ → Prop} {s : σ} (h : Safe step keep p ok stop s)
    (hkeep : ∀ s', keep s' → keep' s') :
  Safe step keep' p ok stop s
  := Program.Safe.keep_mono h hkeep

/-- The second part of a sequence runs from where the first part ends. -/
theorem safe_bind {p : Procedure α} {f : α → Procedure β} {ok : β → σ → Prop}
    {stop : Stop → σ → Prop} {s : σ}
    (h : Safe step keep p (fun a s' => Safe step keep (f a) ok stop s') stop s) :
  Safe step keep (p >>= f) ok stop s
  := by
  apply (Program.safe_bind p.run _ _ s).mpr
  apply Program.Safe.mono h
  intro r s' hr
  cases r <;> exact hr

/-- The invariant still holds when a procedure has a result. -/
theorem safe_keeps {p : Procedure α} {ok : α → σ → Prop} {stop : Stop → σ → Prop} {s : σ} (hs : keep s)
    (h : Safe step keep p ok stop s) :
  Safe step keep p (fun a s' => keep s' ∧ ok a s') stop s
  := by
  apply Program.Safe.mono (Program.Safe.keeps h hs)
  rintro (e | a) s' hended
  · apply hended.2
  · apply hended

/-- The second part of a sequence runs from where the first part ends, with the invariant. -/
theorem safe_bind_keeps {p : Procedure α} {f : α → Procedure β} {ok : α → σ → Prop}
    {ok' : β → σ → Prop} {stop : Stop → σ → Prop} {s : σ} (hs : keep s)
    (hp : Safe step keep p ok stop s)
    (hf : ∀ a s', keep s' → ok a s' → Safe step keep (f a) ok' stop s') :
  Safe step keep (p >>= f) ok' stop s
  := by
  apply safe_bind
  apply safe_mono (safe_keeps hs hp)
  rintro a s' ⟨hs', ha⟩
  apply hf a s' hs' ha

/-- A handler runs from where a procedure stopped. -/
theorem safe_tryCatch {p : Procedure α} {handler : Stop → Procedure α} {ok : α → σ → Prop}
    {stop : Stop → σ → Prop} {s : σ}
    (h : Safe step keep p ok (fun e s' => Safe step keep (handler e) ok stop s') s) :
  Safe step keep (tryCatch p handler) ok stop s
  := by
  apply (Program.safe_bind p.run _ _ s).mpr
  apply Program.Safe.mono h
  intro r s' hr
  cases r <;> exact hr

theorem safe_ask {r : Request} {ok : r.Answer → σ → Prop} {stop : Stop → σ → Prop} {s : σ}
    (h : ∀ answer s', step s r answer s' → keep s' ∧ ok answer s') :
  Safe step keep (ask r) ok stop s
  := h

theorem safe_ofResult {r : Except Error α} {ok : α → σ → Prop} {stop : Stop → σ → Prop} {s : σ}
    (hok : ∀ a, r = .ok a → ok a s) (hstop : ∀ e, r = .error e → stop (.error e) s) :
  Safe step keep (ofResult r) ok stop s
  := by
  cases r with
  | ok a => apply hok a rfl
  | error e => apply hstop e rfl

theorem safe_ofComputation {r : Except Stop α} {ok : α → σ → Prop} {stop : Stop → σ → Prop}
    {s : σ} (hok : ∀ a, r = .ok a → ok a s) (hstop : ∀ e, r = .error e → stop e s) :
  Safe step keep (ofComputation r) ok stop s
  := by
  cases r with
  | ok a => apply hok a rfl
  | error e => apply hstop e rfl

/-- Procedures for the members of a list run one after the other. Each of them keeps the invariant,
does its own work and leaves that of the others. -/
theorem safe_forM {l : List β} {f : β → Procedure Unit} {inv : σ → Prop} {done : β → σ → Prop}
    {stop : Stop → σ → Prop} {s : σ}
    (hf : ∀ b ∈ l, ∀ s, inv s →
      Safe step keep (f b) (fun _ s' => inv s' ∧ done b s' ∧ ∀ b' ∈ l, done b' s → done b' s')
        stop s)
    (h : inv s) :
  Safe step keep (l.forM f) (fun _ s' => inv s' ∧ ∀ b ∈ l, done b s') stop s
  := by
  -- What has been done for the members before is left by the procedures for the others.
  have hall : ∀ todo : List β, (∀ b ∈ todo, b ∈ l) → ∀ s, inv s → Safe step keep (todo.forM f)
      (fun _ s' => inv s' ∧ (∀ b ∈ todo, done b s') ∧ ∀ b ∈ l, done b s → done b s') stop s := by
    intro todo
    induction todo with
    | nil =>
      intro _ s hs
      apply safe_pure
      refine ⟨hs, ?_, fun _ _ hb => hb⟩
      intro b hb
      cases hb
    | cons b todo ih =>
      intro hmem s hs
      apply safe_bind
      apply safe_mono (hf b (hmem b List.mem_cons_self) s hs)
      rintro _ s₁ ⟨hs₁, hdone, hleft⟩
      apply safe_mono (ih (fun b' hb' => hmem b' (List.mem_cons_of_mem _ hb')) s₁ hs₁)
      rintro _ s₂ ⟨hs₂, htodo, hleft₂⟩
      refine ⟨hs₂, ?_, fun b' hb' h => hleft₂ b' hb' (hleft b' hb' h)⟩
      intro b' hb'
      rcases List.mem_cons.mp hb' with rfl | hb'
      · apply hleft₂ _ (hmem _ List.mem_cons_self) hdone
      · apply htodo b' hb'
  apply safe_mono (hall l (fun _ hb => hb) s h)
  rintro _ s' ⟨hs', hdone, -⟩
  exact ⟨hs', hdone⟩

-- A procedure is taken apart by the rules above, never by running it.
attribute [irreducible] Safe

end CertKeeper.Procedure
