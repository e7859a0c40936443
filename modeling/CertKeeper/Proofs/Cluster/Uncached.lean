import CertKeeper.Proofs.Cluster.World

/-!
# What procedures ask for

`Procedure.Uncached` says of a procedure that it does not look into a cache, whatever it is told. Such a
procedure comes to the same whatever the caches show. `Procedure.Draws` leaves the caches free. Both
bound the number of key pairs that a procedure makes, which is how much it takes from the supply of a
world (`Procedure.Draws.keys_run`). The rules of this module take a procedure apart.
-/

namespace CertKeeper

/-- The request goes to a cache. -/
def Request.AsksCache : Request → Prop
  | cached _ _ => True
  | _ => False

/-- The request makes a key pair. -/
def Request.MakesKey : Request → Prop
  | newKey => True
  | _ => False

namespace Procedure

variable {α β : Type} {k : Kind} {allowed : Request → Prop} {m n : Nat}

/-- Whatever it is told, the procedure makes allowed requests only, and at most a number of key pairs. -/
def Frugal (allowed : Request → Prop) (n : Nat) (p : Procedure α) : Prop :=
  p.run.AtMost allowed Request.MakesKey n

/-- The procedure asks no cache, and makes at most a number of key pairs. -/
abbrev Uncached (n : Nat) (p : Procedure α) : Prop := p.Frugal (fun r => ¬ r.AsksCache) n

/-- The procedure makes at most a number of key pairs. -/
abbrev Draws (n : Nat) (p : Procedure α) : Prop := p.Frugal (fun _ => True) n

theorem frugal_pure (a : α) :
  Frugal allowed n (pure a)
  := .done

theorem frugal_throw (e : Stop) :
  Frugal allowed n (throw e : Procedure α)
  := .done

theorem frugal_ask {r : Request} (hallowed : allowed r) (hr : ¬ r.MakesKey) :
  Frugal allowed 0 (ask r)
  := .free hallowed hr (fun _ => .done)

theorem Frugal.bind {p : Procedure α} {f : α → Procedure β} (hp : Frugal allowed m p)
    (hf : ∀ a, Frugal allowed n (f a)) :
  Frugal allowed (n + m) (p >>= f)
  := by
  apply Program.AtMost.bind hp
  rintro (e | a)
  · exact .done
  · apply hf a

theorem Frugal.tryCatch {p : Procedure α} {handler : Stop → Procedure α} (hp : Frugal allowed m p)
    (hhandler : ∀ e, Frugal allowed n (handler e)) :
  Frugal allowed (n + m) (tryCatch p handler)
  := by
  apply Program.AtMost.bind hp
  rintro (e | a)
  · apply hhandler e
  · exact .done

theorem frugal_ofResult (r : Except Error α) :
  Frugal allowed 0 (ofResult r)
  := by
  cases r <;> exact .done

theorem frugal_ofComputation (r : Except Stop α) :
  Frugal allowed 0 (ofComputation r)
  := by
  cases r <;> exact .done

/-- A procedure that asks no cache may be one that does. -/
theorem Frugal.draws {p : Procedure α} (hp : Frugal allowed n p) :
  p.Draws n
  := Program.AtMost.weaken hp (fun _ _ => trivial)

theorem draws_cached (ref : ResourceRef) :
  (cached k ref).Draws 0
  := frugal_ask trivial id

/-! ### Requests that go to no cache -/

theorem uncached_clock : clock.Uncached 0 := frugal_ask id id

theorem uncached_newKey : newKey.Uncached 1 := .counted id (fun _ => .done)

theorem uncached_publish (o : Object k) (reason action note : String) :
  (publish o reason action note).Uncached 0
  := frugal_ask id id

theorem uncached_get (ref : ResourceRef) :
  (get k ref).Uncached 0
  := (frugal_ask id id).bind (fun _ => frugal_ofResult _)

theorem uncached_find (ref : ResourceRef) :
  (find k ref).Uncached 0
  := by
  apply (frugal_ask id id).bind
  intro answer
  split
  · apply frugal_pure
  · split
    · apply frugal_pure
    · apply frugal_throw

theorem uncached_create (ns : String) (o : Object k) :
  (create k ns o).Uncached 0
  := (frugal_ask id id).bind (fun _ => frugal_ofResult _)

theorem uncached_update (ns : String) (o : Object k) :
  (update k ns o).Uncached 0
  := (frugal_ask id id).bind (fun _ => frugal_ofResult _)

theorem uncached_store (ns : String) (secret : Secret) :
  (store ns secret).Uncached 0
  := by
  unfold store
  split
  · apply uncached_update
  · apply (frugal_ask id id).bind
    intro answer
    split
    · apply frugal_pure
    · split
      · apply (uncached_get _).bind
        intro live
        apply uncached_update
      · apply frugal_throw

end Procedure

/-! ### The supply of keys -/

namespace World

theorem keys_call {k : Kind} (w : World) (verb : CallVerb) (ref : ResourceRef) (sent : Option String)
    (action : Store → Except Error (Object k) × Store) :
  (w.call verb ref sent action).2.keys = w.keys
  := by
  simp only [call]
  split
  · rfl
  · rfl

/-- Only a request for a key pair takes one from the supply. -/
theorem keys_handle (r : Request) (w : World) :
  (¬ r.MakesKey → (handle r w).2.keys = w.keys)
    ∧ w.keys ≤ (handle r w).2.keys ∧ (handle r w).2.keys ≤ w.keys + 1
  := by
  have hkept : ∀ {keys : Nat}, keys = w.keys →
      (¬ r.MakesKey → keys = w.keys) ∧ w.keys ≤ keys ∧ keys ≤ w.keys + 1 := by
    rintro _ rfl
    exact ⟨fun _ => rfl, Nat.le_refl _, Nat.le_succ _⟩
  cases r with
  | cached k ref => apply hkept rfl
  | get k ref => apply hkept (keys_call _ _ _ _ _)
  | create k ns o => apply hkept (keys_call _ _ _ _ _)
  | update k ns o => apply hkept (keys_call _ _ _ _ _)
  | clock => apply hkept rfl
  | newKey => exact ⟨fun h => absurd trivial h, Nat.le_succ _, Nat.le_refl _⟩
  | publish event =>
    apply hkept
    simp only [handle]
    split
    · rfl
    · rfl

end World

/-- A run takes no more keys from the supply than its procedure makes. -/
theorem Procedure.Draws.keys_run {α : Type} {n : Nat} {p : Procedure α} (hp : p.Draws n) (w : World) :
  w.keys ≤ (World.run p w).2.keys ∧ (World.run p w).2.keys ≤ w.keys + n
  := by
  apply Program.AtMost.run_le _ _ hp
  · intro r w hr
    apply (World.keys_handle r w).1 hr
  · intro r w
    apply (World.keys_handle r w).2

/-- A procedure leads to worlds that have given no more keys than it makes. -/
theorem Procedure.Draws.leads {α : Type} {n : Nat} {p : Procedure α} (hp : p.Draws n) {w : World} :
  p.Leads (fun _ w' => w.keys ≤ w'.keys ∧ w'.keys ≤ w.keys + n) (fun _ _ => True) w
  := by
  rw [leads_iff]
  cases (World.run p w).1 with
  | ok a => apply hp.keys_run w
  | error e => trivial

end CertKeeper
