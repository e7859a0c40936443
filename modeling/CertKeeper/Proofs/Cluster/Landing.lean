import CertKeeper.Proofs.Cluster.Uncached

/-!
# Where secrets land

Nothing is assumed about the world here: calls may fail, other writers may be at work, and the caches may
lag behind. The clock stands still all the same while a procedure runs (`World.clock_run`), and a secret
that a procedure has stored is live then, as it was handed in but for its version
(`Procedure.leads_store_landed`).
-/

namespace CertKeeper

namespace World

variable {k : Kind}

/-- No request moves the clock. -/
theorem clock_handle (r : Request) (w : World) :
  (handle r w).2.clock = w.clock
  := by
  have hcall : ∀ {k : Kind} (verb : CallVerb) (ref : ResourceRef) (sent : Option String)
      (action : Store → Except Error (Object k) × Store),
      (w.call verb ref sent action).2.clock = w.clock := by
    intro k verb ref sent action
    simp only [call]
    split <;> rfl
  cases r with
  | cached k ref => rfl
  | get k ref => apply hcall
  | create k ns o => apply hcall
  | update k ns o => apply hcall
  | clock => rfl
  | newKey => rfl
  | publish event =>
    simp only [handle]
    split <;> rfl

/-- No procedure moves the clock. -/
theorem clock_run {α : Type} (p : Procedure α) (w : World) :
  (World.run p w).2.clock = w.clock
  := by
  have hsafe : p.run.Safe (Program.handled handle) (fun w' : World => w'.clock = w.clock)
      (fun _ w' => w'.clock = w.clock) w := by
    apply Program.safe_of_step
    · intro w₁ r answer w₂ hkeep hanswer
      have hclock := clock_handle r w₁
      rw [show handle r w₁ = (answer, w₂) from hanswer] at hclock
      apply hclock.trans hkeep
    · rfl
  apply hsafe.run

/-- A call that succeeds does so on the store as other writers left it. -/
theorem call_eq_ok {verb : CallVerb} {ref : ResourceRef} {sent : Option String}
    {action : Store → Except Error (Object k) × Store} {w w' : World} {o : Object k}
    (h : w.call verb ref sent action = (.ok o, w')) :
  ∃ s, action s = (.ok o, w'.store)
  := by
  simp only [call] at h
  obtain ⟨hanswer, rfl⟩ := Prod.mk.inj h
  split at hanswer
  · cases hanswer
  · exact ⟨_, Prod.ext hanswer rfl⟩

/-- A secret is live at its place in a namespace, as it was handed in but for its version. -/
def Landed (w : World) (ns : String) (secret stored : Secret) : Prop :=
  w.store.find? .secret ⟨ns, secret.name⟩ = some stored ∧ ∃ s : Store, stored = s.stamped ns secret

theorem Landed.of_store {ns : String} {secret stored : Secret} {w w' : World}
    (h : w.Landed ns secret stored) (hstore : w'.store = w.store) :
  w'.Landed ns secret stored
  := by
  refine ⟨?_, h.2⟩
  rw [hstore]
  apply h.1

end World

namespace Procedure

variable {k : Kind} {w : World}

theorem leads_update_landed (ns : String) (secret : Secret) (w : World) :
  (update .secret ns secret).Leads (fun stored w' => w'.Landed ns secret stored) (fun _ _ => True) w
  := by
  apply safe_bind
  apply safe_ask
  intro answer w' hanswer
  refine ⟨trivial, safe_ofResult ?_ (fun _ _ => trivial)⟩
  rintro stored rfl
  simp only [Program.handled, World.handle] at hanswer
  obtain ⟨s, hupdate⟩ := World.call_eq_ok hanswer
  obtain ⟨live, -, -, rfl, hstore⟩ := Store.update_eq_ok hupdate
  constructor
  · rw [hstore, Store.find?_commit_self]
  · exact ⟨s, rfl⟩

/-- A secret that has been stored is live. -/
theorem leads_store_landed (ns : String) (secret : Secret) (w : World) :
  (store ns secret).Leads (fun stored w' => w'.Landed ns secret stored) (fun _ _ => True) w
  := by
  unfold store
  split
  · apply leads_update_landed
  · apply safe_bind
    apply safe_ask
    intro answer w₁ hanswer
    constructor
    · trivial
    · cases answer with
      | ok stored =>
        apply safe_pure
        simp only [Program.handled, World.handle] at hanswer
        obtain ⟨s, hcreate⟩ := World.call_eq_ok hanswer
        obtain ⟨-, rfl, hstore⟩ := Store.create_eq_ok hcreate
        constructor
        · rw [hstore, Store.find?_commit_self]
        · exact ⟨s, rfl⟩
      | error e =>
        dsimp only
        split
        · apply leads_bind
          intro live w₂
          -- The version of the live secret is sent along, and is not part of what is stored.
          apply (leads_update_landed ns
            { secret with metadata := { secret.metadata with version := live.version } } w₂).mono
          · rintro stored w₃ ⟨hlive, s, hstored⟩
            exact ⟨hlive, s, hstored⟩
          · intro _ _ _
            trivial
        · apply safe_throw
          trivial

/-- Reporting a change leaves the store and the supply of keys alone. -/
theorem leads_publish_store {o : Object k} {reason action note : String} {ok : Unit → World → Prop}
    {stop : Stop → World → Prop} (h : ∀ {w'}, w'.store = w.store → w'.keys = w.keys → ok () w') :
  (publish o reason action note).Leads ok stop w
  := by
  apply safe_ask
  intro answer w' hanswer
  constructor
  · trivial
  · simp only [Program.handled, World.handle] at hanswer
    obtain ⟨-, rfl⟩ := Prod.mk.inj hanswer
    apply h
    · split <;> rfl
    · split <;> rfl

/-- Looking for an object takes no keys from the supply. -/
theorem draws_current (known : Option (Object k)) (ref : ResourceRef) :
  (current k known ref).Draws 0
  := by
  unfold current
  split
  · apply frugal_pure
  · apply (draws_cached ref).bind
    intro cached
    split
    · apply frugal_pure
    · apply (uncached_find ref).draws

end Procedure

end CertKeeper
