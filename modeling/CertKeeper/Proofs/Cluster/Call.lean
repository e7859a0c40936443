import CertKeeper.Proofs.Cluster.History
import CertKeeper.Proofs.Cluster.Procedure

/-!
# Requests in a cluster with a history

The rules of `Procedure.Safe` for single requests in the surroundings `History.step`. Each
rule names the history in which the request is answered, which drift may have led to. A
write is the only request after which the invariant has to be shown again.
-/

namespace CertKeeper.Procedure

variable {α : Type} {k : Kind} {outside : Outside} {keep : History → Prop}
variable {h : History} {stop : Stop → History → Prop}

/-- The invariant is not disturbed by what happens between the requests. -/
def Steady (outside : Outside) (keep : History → Prop) : Prop :=
  ∀ {h h' : History}, keep h → h.Drift outside h' → keep h'

/-- What holds at the end may be weakened in the later histories that have the invariant. -/
theorem safe_imp {p : Procedure α} {ok ok' : α → History → Prop} {stop' : Stop → History → Prop}
    (hk : keep h) (hp : Safe (History.step outside) keep p ok stop h)
    (hok : ∀ {a h'}, h.Later h' → keep h' → ok a h' → ok' a h')
    (hstop : ∀ {e h'}, h.Later h' → keep h' → stop e h' → stop' e h') :
  Safe (History.step outside) keep p ok' stop' h
  := by
  apply safe_iff.mpr
  apply Program.Safe.imp History.Later History.Later.refl History.Later.trans History.step_later
    ((safe_iff.mp hp).keeps hk)
  intro r h' hlater hr
  cases r with
  | ok a => apply hok hlater hr.1 hr.2
  | error e => apply hstop hlater hr.1 hr.2

/-- A cache shows nothing or some version of an object that it follows. -/
theorem safe_cached (hsteady : Steady outside keep) (hk : keep h) {ref : ResourceRef}
    (hfollows : outside.follows k ref)
    {ok : Option (Object k) → History → Prop}
    (hsome : ∀ {h'} {o : Object k}, h.Drift outside h' → keep h' → (⟨k, o⟩ : Sigma Object) ∈ h'.past →
      o.IsAt ref → ok (some o) h')
    (hnone : ∀ {h'}, h.Drift outside h' → keep h' → ok none h') :
  Safe (History.step outside) keep (cached k ref) ok stop h
  := by
  apply safe_ask
  rintro answer _ ⟨h', hd, rfl, ho⟩
  have hk' := hsteady hk hd
  constructor
  · apply hk'
  · cases answer with
    | none => apply hnone hd hk'
    | some o =>
      obtain ⟨hmem, hat⟩ := ho hfollows o rfl
      apply hsome hd hk' hmem hat

/-- A cache shows nothing or anything. -/
theorem safe_cached_any (hsteady : Steady outside keep) (hk : keep h) {ref : ResourceRef}
    {ok : Option (Object k) → History → Prop}
    (hok : ∀ {h'} (o : Option (Object k)), h.Drift outside h' → keep h' → ok o h') :
  Safe (History.step outside) keep (cached k ref) ok stop h
  := by
  apply safe_ask
  rintro answer _ ⟨h', hd, rfl, -⟩
  exact ⟨hsteady hk hd, hok answer hd (hsteady hk hd)⟩

/-- A call that reads gives the live object or fails. -/
theorem safe_askGet (hsteady : Steady outside keep) (hk : keep h) {ref : ResourceRef}
    {ok : Except Error (Object k) → History → Prop}
    (hok : ∀ {h'} {o : Object k}, h.Drift outside h' → keep h' → h'.store.find? k ref = some o →
      ok (.ok o) h')
    (herror : ∀ {h' e}, h.Drift outside h' → keep h' → ok (.error e) h') :
  Safe (History.step outside) keep (ask (.get k ref)) ok stop h
  := by
  apply safe_ask
  rintro answer _ ⟨h', hd, rfl, ⟨e, rfl⟩ | rfl⟩
  · exact ⟨hsteady hk hd, herror hd (hsteady hk hd)⟩
  · constructor
    · apply hsteady hk hd
    · unfold Store.get
      split
      · rename_i o hfind
        apply hok hd (hsteady hk hd) hfind
      · apply herror hd (hsteady hk hd)

theorem safe_get (hsteady : Steady outside keep) (hk : keep h) {ref : ResourceRef}
    {ok : Object k → History → Prop}
    (hok : ∀ {h'} {o : Object k}, h.Drift outside h' → keep h' → h'.store.find? k ref = some o →
      ok o h')
    (hstop : ∀ {h' e}, h.Drift outside h' → keep h' → stop (.error e) h') :
  Safe (History.step outside) keep (get k ref) ok stop h
  := by
  apply safe_bind
  apply safe_askGet hsteady hk
  · intro h' o hd hk' hfind
    apply safe_pure
    apply hok hd hk' hfind
  · intro h' e hd hk'
    apply safe_fail
    apply hstop hd hk'

theorem safe_find (hsteady : Steady outside keep) (hk : keep h) {ref : ResourceRef}
    {ok : Option (Object k) → History → Prop}
    (hsome : ∀ {h'} {o : Object k}, h.Drift outside h' → keep h' → h'.store.find? k ref = some o →
      ok (some o) h')
    (hnone : ∀ {h'}, h.Drift outside h' → keep h' → ok none h')
    (hstop : ∀ {h' e}, h.Drift outside h' → keep h' → stop (.error e) h') :
  Safe (History.step outside) keep (find k ref) ok stop h
  := by
  apply safe_bind
  apply safe_askGet hsteady hk
  · intro h' o hd hk' hfind
    apply safe_pure
    apply hsome hd hk' hfind
  · intro h' e hd hk'
    dsimp only
    split
    · apply safe_pure
      apply hnone hd hk'
    · apply safe_fail
      apply hstop hd hk'

/-- A call that creates stores the object where there is none, or fails. -/
theorem safe_askCreate (hsteady : Steady outside keep) (hk : keep h) {ref : ResourceRef}
    {o : Object k} (hname : o.name = ref.name) {ok : Except Error (Object k) → History → Prop}
    (hok : ∀ {h' h''}, h.Drift outside h' → keep h' → h'.store.find? k ref = none →
      h'.Wrote ref o h'' → keep h'' ∧ ok (.ok (h'.store.stamped ref.ns o)) h'')
    (herror : ∀ {h' e}, h.Drift outside h' → keep h' → ok (.error e) h') :
  Safe (History.step outside) keep (ask (.create k ref.ns o)) ok stop h
  := by
  obtain ⟨ns, name⟩ := ref
  obtain rfl : o.name = name := hname
  apply safe_ask
  rintro answer _ ⟨h', hd, ⟨e, rfl, rfl⟩ | ⟨stored, s, hcreate, rfl, rfl⟩⟩
  · exact ⟨hsteady hk hd, herror hd (hsteady hk hd)⟩
  · obtain ⟨hnone, rfl, -⟩ := Store.create_eq_ok hcreate
    apply hok hd (hsteady hk hd) hnone (.of_create hcreate)

theorem safe_create (hsteady : Steady outside keep) (hk : keep h) {ref : ResourceRef}
    {o : Object k} (hname : o.name = ref.name) {ok : Object k → History → Prop}
    (hok : ∀ {h' h''}, h.Drift outside h' → keep h' → h'.store.find? k ref = none →
      h'.Wrote ref o h'' → keep h'' ∧ ok (h'.store.stamped ref.ns o) h'')
    (hstop : ∀ {h' e}, h.Drift outside h' → keep h' → stop (.error e) h') :
  Safe (History.step outside) keep (create k ref.ns o) ok stop h
  := by
  apply safe_bind
  apply safe_askCreate hsteady hk hname
  · intro h' h'' hd hk' hnone hw
    obtain ⟨hk'', hpost⟩ := hok hd hk' hnone hw
    exact ⟨hk'', safe_pure hpost⟩
  · intro h' e hd hk'
    apply safe_fail
    apply hstop hd hk'

/-- A call that updates stores the object in the place of the one with the same version, or
fails. -/
theorem safe_update (hsteady : Steady outside keep) (hk : keep h) {ref : ResourceRef}
    {o : Object k} (hname : o.name = ref.name) {ok : Object k → History → Prop}
    (hok : ∀ {h' h'' live}, h.Drift outside h' → keep h' → h'.store.find? k ref = some live →
      live.version = o.version → h'.Wrote ref o h'' → keep h'' ∧ ok (h'.store.stamped ref.ns o) h'')
    (hstop : ∀ {h' e}, h.Drift outside h' → keep h' → stop (.error e) h') :
  Safe (History.step outside) keep (update k ref.ns o) ok stop h
  := by
  obtain ⟨ns, name⟩ := ref
  obtain rfl : o.name = name := hname
  apply safe_bind
  apply safe_ask
  rintro answer _ ⟨h', hd, ⟨e, rfl, rfl⟩ | ⟨stored, s, hupdate, rfl, rfl⟩⟩
  · constructor
    · apply hsteady hk hd
    · apply safe_fail
      apply hstop hd (hsteady hk hd)
  · obtain ⟨live, hlive, hversion, rfl, -⟩ := Store.update_eq_ok hupdate
    obtain ⟨hk'', hpost⟩ := hok hd (hsteady hk hd) hlive hversion (.of_update hupdate)
    exact ⟨hk'', safe_pure hpost⟩

theorem safe_clock (hsteady : Steady outside keep) (hk : keep h) {ok : Instant → History → Prop}
    (hok : ∀ {h'}, h.Drift outside h' → keep h' → ok h'.clock h') :
  Safe (History.step outside) keep clock ok stop h
  := by
  apply safe_ask
  rintro answer _ ⟨h', hd, rfl, rfl⟩
  exact ⟨hsteady hk hd, hok hd (hsteady hk hd)⟩

theorem safe_newKey (hsteady : Steady outside keep) (hk : keep h) {ok : KeyPair → History → Prop}
    (hok : ∀ {h'} (seed : Nat), h.Drift outside h' → keep h' → ok (KeyPair.generate seed) h') :
  Safe (History.step outside) keep newKey ok stop h
  := by
  apply safe_ask
  rintro answer _ ⟨h', hd, ⟨seed, rfl⟩, rfl⟩
  exact ⟨hsteady hk hd, hok seed hd (hsteady hk hd)⟩

theorem safe_publish (hsteady : Steady outside keep) (hk : keep h) {o : Object k}
    {reason action note : String} {ok : Unit → History → Prop}
    (hok : ∀ {h'}, h.Drift outside h' → keep h' → ok () h') :
  Safe (History.step outside) keep (publish o reason action note) ok stop h
  := by
  apply safe_ask
  rintro answer _ ⟨h', hd, rfl⟩
  exact ⟨hsteady hk hd, hok hd (hsteady hk hd)⟩

/-- A secret is stored as it is but for its version, or the call fails. If it had a version, then
it replaces what has that version. -/
theorem safe_store (hsteady : Steady outside keep) (hk : keep h) {ref : ResourceRef} {o : Secret}
    (hname : o.name = ref.name) {ok : Secret → History → Prop}
    (hok : ∀ {h' h''}, h.Drift outside h' → keep h' →
      (o.version.isSome → ∃ live, h'.store.find? .secret ref = some live ∧ live.version = o.version) →
      h'.Wrote ref o h'' → keep h'' ∧ ok (h'.store.stamped ref.ns o) h'')
    (hstop : ∀ {h' e}, h.Drift outside h' → keep h' → stop (.error e) h') :
  Safe (History.step outside) keep (store ref.ns o) ok stop h
  := by
  unfold store
  split
  · apply safe_update hsteady hk hname
    · intro h' h'' live hd hk' hlive hversion hw
      apply hok hd hk' (fun _ => ⟨live, hlive, hversion⟩) hw
    · apply hstop
  · rename_i hnone
    have hunversioned : ∀ {p : Prop}, o.version.isSome → p := by
      intro p hsome
      rw [hnone] at hsome
      cases hsome
    apply safe_bind
    apply safe_askCreate hsteady hk hname
    · intro h' h'' hd hk' _ hw
      obtain ⟨hk'', hpost⟩ := hok hd hk' hunversioned hw
      exact ⟨hk'', safe_pure hpost⟩
    · intro h₁ e hd₁ hk₁
      dsimp only
      split
      · apply safe_bind
        apply safe_get hsteady hk₁
        · intro h₂ live hd₂ hk₂ _
          have hname' : ({ o with metadata := { o.metadata with version := live.version } } : Secret).name
              = ref.name := hname
          apply safe_update hsteady hk₂ hname'
          · intro h₃ h₄ _ hd₃ hk₃ _ _ hw
            -- The version that is sent along is not part of what is stored.
            apply hok (hd₁.trans (hd₂.trans hd₃)) hk₃ hunversioned hw
          · intro h₃ e' hd₃ hk₃
            apply hstop (hd₁.trans (hd₂.trans hd₃)) hk₃
        · intro h₂ e' hd₂ hk₂
          apply hstop (hd₁.trans hd₂) hk₂
      · apply safe_fail
        apply hstop hd₁ hk₁

/-- The freshest copy that is known is some version of the object, if there is one. -/
theorem safe_current (hsteady : Steady outside keep) (hk : keep h) {ref : ResourceRef}
    (hfollows : outside.follows k ref)
    {ok : Option (Object k) → History → Prop}
    (hcached : ∀ {h'} {o : Object k}, h.Drift outside h' → keep h' →
      (⟨k, o⟩ : Sigma Object) ∈ h'.past → o.IsAt ref → ok (some o) h')
    (hfound : ∀ {h'} {o : Object k}, h.Drift outside h' → keep h' → h'.store.find? k ref = some o →
      ok (some o) h')
    (hnone : ∀ {h'}, h.Drift outside h' → keep h' → ok none h')
    (hstop : ∀ {h' e}, h.Drift outside h' → keep h' → stop (.error e) h') :
  Safe (History.step outside) keep (current k none ref) ok stop h
  := by
  apply safe_bind
  apply safe_cached hsteady hk hfollows
  · intro h' o hd hk' hmem hat
    apply safe_pure
    apply hcached hd hk' hmem hat
  · intro h' hd hk'
    apply safe_find hsteady hk'
    · intro h'' o hd' hk'' hfind
      apply hfound (hd.trans hd') hk'' hfind
    · intro h'' hd' hk''
      apply hnone (hd.trans hd') hk''
    · intro h'' e hd' hk''
      apply hstop (hd.trans hd') hk''

end CertKeeper.Procedure
