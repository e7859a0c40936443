import CertKeeper.Proofs.Cluster.Quiet
import CertKeeper.Proofs.Cluster.Uncached

/-!
# Surroundings whose caches lag

In lagging surroundings nobody else writes and no call fails without cause, as in quiet ones. The caches
are caught up when a history begins. What is written after that, the cache of an object shows at once,
late or only afterwards (`Delivery`).

A procedure that asks no cache does in lagging surroundings what it does in quiet ones
(`Procedure.Uncached.lagging`). A cache is `Fair` if it shows the live object or nothing. A cache that is
not lags behind something that has been written (`History.Stems.fair_or_behind`).
-/

namespace CertKeeper

/-- When the cache of an object shows what is written. -/
inductive Delivery where
  | atOnce
  | late
  | afterwards

/-- What is known of lagging surroundings: what would be known of quiet ones, the store at the
beginning, and when the caches deliver. -/
structure Lag where
  quiet : Quiet
  first : Store
  delivery : Kind → ResourceRef → Delivery

namespace History

variable {l : Lag} {q : Quiet} {k : Kind} {ref : ResourceRef} {h h' h'' : History}

/-- What the cache of an object may show. If it delivers late, that is any version since the first one. -/
def Shows (l : Lag) (h : History) (ref : ResourceRef) (o : Option (Object k)) : Prop :=
  match l.delivery k ref with
  | .atOnce => o = h.store.find? k ref
  | .late => o = l.first.find? k ref ∨ ∃ v, o = some v ∧ v.IsAt ref ∧ (⟨k, v⟩ : Sigma Object) ∈ h.past
  | .afterwards => o = l.first.find? k ref

/-- Lagging surroundings. -/
def lagging (l : Lag) : Surroundings Request.Answer History
  | h, .cached _ ref, answer, h' =>
    h.Rests l.quiet h' ∧ (l.quiet.watched.contains ref.ns → h'.Shows l ref answer)
  | h, r, answer, h' => quiet l.quiet h r answer h'

/-- Other requests than those to a cache are answered as in quiet surroundings. -/
theorem quiet_of_lagging {r : Request} {answer : r.Answer} (hr : ¬ r.AsksCache)
    (hlagging : lagging l h r answer h') :
  quiet l.quiet h r answer h'
  := by
  cases r with
  | cached k ref => exact absurd trivial hr
  | _ => apply hlagging

/-- A step of lagging surroundings lets time pass, and a write may follow. -/
theorem lagging_cases {r : Request} {answer : r.Answer} (hlagging : lagging l h r answer h'') :
  h.Rests l.quiet h'' ∨ ∃ (h' : History) (k : Kind) (ref : ResourceRef) (o : Object k),
    h.Rests l.quiet h' ∧ h'.Wrote ref o h''
  := by
  cases r with
  | cached k ref => exact .inl hlagging.1
  | get k ref =>
    obtain ⟨h', hrests, rfl, -⟩ := hlagging
    exact .inl hrests
  | create k ns o =>
    obtain ⟨h', hrests, ⟨e, s, -, -, rfl⟩ | ⟨stored, s, hcreate, -, rfl⟩⟩ := hlagging
    · exact .inl hrests
    · exact .inr ⟨h', k, _, o, hrests, .of_create hcreate⟩
  | update k ns o =>
    obtain ⟨h', hrests, ⟨e, s, -, -, rfl⟩ | ⟨stored, s, hupdate, -, rfl⟩⟩ := hlagging
    · exact .inl hrests
    · exact .inr ⟨h', k, _, o, hrests, .of_update hupdate⟩
  | clock =>
    obtain ⟨h', hrests, -, rfl⟩ := hlagging
    exact .inl hrests
  | newKey =>
    obtain ⟨h', hrests, -, -, rfl⟩ := hlagging
    exact .inl hrests
  | publish event =>
    obtain ⟨h', hrests, rfl⟩ := hlagging
    exact .inl hrests

/-- Lagging surroundings answer every request, if any keys may be made. -/
theorem exists_lagging (hmakes : ∀ s key, l.quiet.makes s key) (h : History) (r : Request) :
  ∃ answer h', lagging l h r answer h'
  := by
  have hrests := Rests.refl l.quiet h
  cases r with
  | cached k ref =>
    cases hdelivery : l.delivery k ref with
    | atOnce =>
      refine ⟨h.store.find? k ref, h, hrests, fun _ => ?_⟩
      rw [Shows, hdelivery]
    | late =>
      refine ⟨l.first.find? k ref, h, hrests, fun _ => ?_⟩
      rw [Shows, hdelivery]
      exact .inl rfl
    | afterwards =>
      refine ⟨l.first.find? k ref, h, hrests, fun _ => ?_⟩
      rw [Shows, hdelivery]
  | get k ref => exact ⟨_, h, h, hrests, rfl, rfl⟩
  | create k ns o =>
    cases hcreate : h.store.create ns o with
    | mk result s =>
      cases result with
      | error e => exact ⟨_, h, h, hrests, .inl ⟨e, s, hcreate, rfl, rfl⟩⟩
      | ok stored => exact ⟨_, _, h, hrests, .inr ⟨stored, s, hcreate, rfl, rfl⟩⟩
  | update k ns o =>
    cases hupdate : h.store.update ns o with
    | mk result s =>
      cases result with
      | error e => exact ⟨_, h, h, hrests, .inl ⟨e, s, hupdate, rfl, rfl⟩⟩
      | ok stored => exact ⟨_, _, h, hrests, .inr ⟨stored, s, hupdate, rfl, rfl⟩⟩
  | clock => exact ⟨_, h, h, hrests, rfl, rfl⟩
  | newKey => exact ⟨_, h, h, hrests, ⟨0, rfl⟩, hmakes _ _, rfl⟩
  | publish event => exact ⟨(), h, h, hrests, rfl⟩

/-! ### Untouched objects -/

/-- No version of an object has been stored. -/
def Untouched (h : History) (k : Kind) (ref : ResourceRef) : Prop :=
  ∀ o : Object k, o.IsAt ref → (⟨k, o⟩ : Sigma Object) ∉ h.past

/-- A history in order that began with the first store. Objects that were not touched are as they were
then. -/
structure Stems (l : Lag) (h : History) : Prop where
  orderly : h.Orderly l.quiet
  named : ∀ {k ref} {o : Object k}, l.first.find? k ref = some o → o.name = ref.name
  same : ∀ {k ref}, h.Untouched k ref → h.store.find? k ref = l.first.find? k ref

theorem Stems.rests (hs : h.Stems l) (hrests : h.Rests l.quiet h') :
  h'.Stems l
  := by
  refine ⟨hs.orderly.rests hrests, hs.named, ?_⟩
  intro k ref huntouched
  rw [Untouched, hrests.past] at huntouched
  rw [hrests.store, hs.same huntouched]

theorem Stems.wrote {o : Object k} (hs : h.Stems l) (hw : h.Wrote ref o h') :
  h'.Stems l
  := by
  refine ⟨hs.orderly.wrote hw, hs.named, ?_⟩
  intro k' ref' huntouched
  by_cases hsame : k' = k ∧ ref' = ref
  · obtain ⟨rfl, rfl⟩ := hsame
    exact absurd hw.mem_past (huntouched _ hw.isAt)
  · rw [hw.find?_of_ne hsame]
    apply hs.same
    intro o' hat hmem
    apply huntouched o' hat (hw.later.past _ hmem)

theorem Stems.lagging {r : Request} {answer : r.Answer} (hs : h.Stems l)
    (hlagging : lagging l h r answer h'') :
  h''.Stems l
  := by
  obtain hrests | ⟨h', k, ref, o, hrests, hw⟩ := lagging_cases hlagging
  · apply hs.rests hrests
  · apply (hs.rests hrests).wrote hw

/-- What has been touched stays touched. -/
theorem untouched_of_lagging {r : Request} {answer : r.Answer} (hlagging : lagging l h r answer h'')
    (huntouched : h''.Untouched k ref) :
  h.Untouched k ref
  := by
  intro o hat hmem
  apply huntouched o hat
  obtain hrests | ⟨h', k', ref', o', hrests, hw⟩ := lagging_cases hlagging
  · rw [hrests.past]
    apply hmem
  · rw [← hrests.past] at hmem
    apply hw.later.past _ hmem

theorem Extends.untouched {places : Kind → ResourceRef → Prop} {log : List Commit}
    (hextends : h.Extends places log h') (hother : ¬ places k ref) (huntouched : h.Untouched k ref) :
  h'.Untouched k ref
  := by
  intro o hat hmem
  apply huntouched o hat (hextends.past hother hat hmem)

/-! ### Fair caches -/

/-- A cache shows an object as it is, or nothing. -/
def Fair (l : Lag) (h : History) (k : Kind) (ref : ResourceRef) : Prop :=
  ∀ o : Option (Object k), h.Shows l ref o → o = none ∨ o = h.store.find? k ref

/-- A cache lags behind a version that has been written. -/
structure Behind (l : Lag) (h : History) (k : Kind) (ref : ResourceRef) : Prop where
  lags : l.delivery k ref ≠ .atOnce
  shown : l.delivery k ref = .afterwards → l.first.find? k ref ≠ none
  touched : ¬ h.Untouched k ref

/-- A cache that is not fair lags behind something. -/
theorem Stems.fair_or_behind (hs : h.Stems l) (k : Kind) (ref : ResourceRef) :
  h.Fair l k ref ∨ h.Behind l k ref
  := by
  by_cases huntouched : h.Untouched k ref
  · left
    intro o hshows
    unfold Shows at hshows
    rw [hs.same huntouched]
    split at hshows
    · rw [hs.same huntouched] at hshows
      exact .inr hshows
    · obtain hfirst | ⟨v, -, hat, hmem⟩ := hshows
      · exact .inr hfirst
      · exact absurd hmem (huntouched v hat)
    · exact .inr hshows
  · cases hdelivery : l.delivery k ref with
    | atOnce =>
      left
      intro o hshows
      rw [Shows, hdelivery] at hshows
      exact .inr hshows
    | late =>
      right
      refine ⟨?_, ?_, huntouched⟩
      · rw [hdelivery]
        exact nofun
      · rw [hdelivery]
        exact nofun
    | afterwards =>
      cases hfirst : l.first.find? k ref with
      | none =>
        left
        intro o hshows
        rw [Shows, hdelivery, hfirst] at hshows
        exact .inl hshows
      | some o =>
        right
        refine ⟨?_, ?_, huntouched⟩
        · rw [hdelivery]
          exact nofun
        · rw [hfirst]
          exact fun _ => nofun

theorem Fair.rests (hfair : h.Fair l k ref) (hrests : h.Rests q h') :
  h'.Fair l k ref
  := by
  intro o hshows
  rw [Shows, hrests.store, hrests.past] at hshows
  rw [hrests.store]
  apply hfair o hshows

/-- Whatever a cache shows is found under its name. -/
theorem Stems.named_of_shows (hs : h.Stems l) {o : Object k} (hshows : h.Shows l ref (some o)) :
  o.name = ref.name
  := by
  unfold Shows at hshows
  split at hshows
  · apply hs.orderly.named hshows.symm
  · obtain hfirst | ⟨v, hv, hat, -⟩ := hshows
    · apply hs.named hfirst.symm
    · cases hv
      apply hat.2
  · apply hs.named hshows.symm

/-- The history that begins with a store stems from it. -/
theorem stems_start {watched : NameSet} {store : Store} {delivery : Kind → ResourceRef → Delivery}
    (hnamed : ∀ {k ref} {o : Object k}, store.find? k ref = some o → o.name = ref.name) (now : Instant) :
  (start store now).Stems ⟨{ watched := watched }, store, delivery⟩
  := ⟨⟨trivial, hnamed⟩, hnamed, fun _ => rfl⟩

end History

/-! ### Procedures -/

namespace Procedure

variable {α β : Type} {l : Lag} {k : Kind} {h : History} {ref : ResourceRef}
variable {stop : Stop → History → Prop}

/-- In lagging surroundings the procedure ends with `ok` or stops with `stop`. -/
abbrev Lagging (l : Lag) (p : Procedure α) (ok : α → History → Prop) (stop : Stop → History → Prop)
    (h : History) : Prop :=
  p.Safe (History.lagging l) (History.Stems l) ok stop h

/-- A procedure that asks no cache does what it does in quiet surroundings. -/
theorem Uncached.lagging {n : Nat} {p : Procedure α} {ok : α → History → Prop}
    (hp : p.Uncached n) (hs : h.Stems l) (hquietly : p.Quietly l.quiet ok stop h) :
  p.Lagging l ok stop h
  := by
  have hrefined : p.run.Safe (History.lagging l) (fun h => h.Orderly l.quiet ∧ h.Stems l) (Ends ok stop)
      h := by
    apply Program.Safe.refine _ hp hs (safe_iff.mp hquietly)
    intro h r answer h' hr hs hlagging
    exact ⟨History.quiet_of_lagging hr hlagging, hs.lagging hlagging⟩
  apply safe_iff.mpr
  apply hrefined.keep_mono
  intro h' hkept
  apply hkept.2

theorem lagging_cached (hs : h.Stems l) (hwatched : l.quiet.watched.contains ref.ns)
    {ok : Option (Object k) → History → Prop}
    (hok : ∀ {h' o}, h.Rests l.quiet h' → h'.Stems l → h'.Shows l ref o → ok o h') :
  (cached k ref).Lagging l ok stop h
  := by
  apply safe_ask
  rintro answer h' ⟨hrests, hshows⟩
  exact ⟨hs.rests hrests, hok hrests (hs.rests hrests) (hshows hwatched)⟩

/-- A procedure keeps what all steps keep, and may come to anything else. -/
theorem lagging_of_step {known : History → Prop}
    (hstep : ∀ {h r answer h'}, known h → History.lagging l h r answer h' → known h') (hs : h.Stems l)
    (hknown : known h) (p : Procedure α) :
  p.Lagging l (fun _ h' => known h') (fun _ h' => known h') h
  := by
  have hsafe : p.run.Safe (History.lagging l) (fun h => h.Stems l ∧ known h)
      (fun _ h => h.Stems l ∧ known h) h :=
    Program.safe_of_step (fun hk hlagging => ⟨hk.1.lagging hlagging, hstep hk.2 hlagging⟩) p.run
      ⟨hs, hknown⟩
  apply safe_iff.mpr
  apply (hsafe.keep_mono (fun _ hk => hk.1)).mono
  rintro (e | a) h' ⟨-, hk⟩
  · apply hk
  · apply hk

end Procedure

end CertKeeper
