import CertKeeper.Proofs.Cluster.Call
import Mathlib.Data.List.Forall2

/-!
# Quiet surroundings

In quiet surroundings nobody else writes, no call fails without cause, and the caches are caught
up: `History.quiet` answers each request as the store has it, while time may pass. What the new key
pairs are like is left open, up to an assumption that may look at the store. A quiet answer is one
that a history allows anyway (`History.step_of_quiet`).

`History.Extends` says which commits have been added to a history and which objects have been left
alone meanwhile, so that the commits of procedures after one another are appended.
-/

namespace CertKeeper

/-- The write that a commit stands for. -/
def Commit.write (c : Commit) : Write :=
  ⟨if c.replaced.isNone then .create else .update, c.kind,
    ⟨c.stored.metadata.ns.getD "", c.stored.name⟩⟩

/-- What is known of quiet surroundings: the namespaces whose caches are followed, the times that
the clock may show, and the key pairs that may be made beside what is stored. -/
structure Quiet where
  watched : NameSet
  shows : Instant → Prop := fun _ => True
  makes : Store → KeyPair → Prop := fun _ _ => True

namespace History

variable {q : Quiet} {k : Kind} {h h' h'' : History}

/-- Time has passed, and nothing else has happened. -/
structure Rests (q : Quiet) (h h' : History) : Prop where
  store : h'.store = h.store
  past : h'.past = h.past
  commits : h'.commits = h.commits
  clock : ¬ h'.clock.before h.clock
  shown : q.shows h.clock → q.shows h'.clock

/-- How quiet surroundings answer a request, and the history after that. -/
def Replies (q : Quiet) (h : History) : (r : Request) → r.Answer → History → Prop
  | .cached k ref, answer, h' =>
    h' = h ∧ (q.watched.contains ref.ns → answer = h.store.find? k ref)
  | .get k ref, answer, h' => h' = h ∧ answer = h.store.get k ref
  | .create _ ns o, answer, h' =>
    (∃ e s, h.store.create ns o = (.error e, s) ∧ answer = .error e ∧ h' = h) ∨
      ∃ stored s, h.store.create ns o = (.ok stored, s) ∧ answer = .ok stored
        ∧ h' = h.committed s ⟨ns, o.name⟩ stored
  | .update _ ns o, answer, h' =>
    (∃ e s, h.store.update ns o = (.error e, s) ∧ answer = .error e ∧ h' = h) ∨
      ∃ stored s, h.store.update ns o = (.ok stored, s) ∧ answer = .ok stored
        ∧ h' = h.committed s ⟨ns, o.name⟩ stored
  | .clock, answer, h' => answer = h.clock ∧ h' = h
  | .newKey, answer, h' => (∃ seed, answer = KeyPair.generate seed) ∧ q.makes h.store answer ∧ h' = h
  | .publish _, _, h' => h' = h

/-- Quiet surroundings. -/
def quiet (q : Quiet) : Surroundings Request.Answer History :=
  fun h r answer h'' => ∃ h', h.Rests q h' ∧ h'.Replies q r answer h''

theorem Rests.refl (q : Quiet) (h : History) :
  h.Rests q h
  := ⟨rfl, rfl, rfl, by simp, fun hshown => hshown⟩

theorem Rests.trans (h₁ : h.Rests q h') (h₂ : h'.Rests q h'') :
  h.Rests q h''
  := ⟨h₂.store.trans h₁.store, h₂.past.trans h₁.past, h₂.commits.trans h₁.commits,
    Instant.not_before_trans h₂.clock h₁.clock, fun hshown => h₂.shown (h₁.shown hshown)⟩

/-! ### Quiet answers among others -/

/-- A reply of quiet surroundings is an answer that the history allows. -/
theorem Replies.answers {outside : Outside} {r : Request} {answer : r.Answer}
    (hcoherent : h.Coherent outside.follows)
    (hfollows : ∀ k ref, outside.follows k ref → q.watched.contains ref.ns)
    (hreply : h.Replies q r answer h') :
  h.Answers outside r answer h'
  := by
  cases r with
  | cached k ref =>
    obtain ⟨rfl, hanswer⟩ := hreply
    refine ⟨rfl, ?_⟩
    intro hplace o ho
    rw [hanswer (hfollows k ref hplace)] at ho
    obtain ⟨hat, hmem⟩ := hcoherent.live hplace ho
    exact ⟨hmem, hat⟩
  | get k ref => exact ⟨hreply.1, .inr hreply.2⟩
  | create k ns o =>
    rcases hreply with ⟨e, s, -, hanswer, hsame⟩ | hok
    · exact .inl ⟨e, hanswer, hsame⟩
    · exact .inr hok
  | update k ns o =>
    rcases hreply with ⟨e, s, -, hanswer, hsame⟩ | hok
    · exact .inl ⟨e, hanswer, hsame⟩
    · exact .inr hok
  | clock => exact hreply
  | newKey => exact ⟨hreply.1, hreply.2.2⟩
  | publish event => exact hreply

/-- A quiet answer is one that the history allows. -/
theorem step_of_quiet {outside : Outside} {r : Request} {answer : r.Answer}
    (hshows : ∀ t, outside.shows t) (hcoherent : h.Coherent outside.follows)
    (hfollows : ∀ k ref, outside.follows k ref → q.watched.contains ref.ns)
    (hquiet : quiet q h r answer h'') :
  step outside h r answer h''
  := by
  obtain ⟨h', hrests, hreply⟩ := hquiet
  have hd : h.Drift outside h' := by
    have hsame : h' = { h with clock := h'.clock } := by
      obtain ⟨hstore, hpast, hcommits, -, -⟩ := hrests
      obtain ⟨store', clock', past', commits'⟩ := h'
      simp only at hstore hpast hcommits
      rw [hstore, hpast, hcommits]
    rw [hsame]
    apply Drift.tick .none hrests.clock (hshows _)
  exact ⟨h', hd, hreply.answers (hcoherent.drift hd) hfollows⟩

/-! ### Histories in order -/

/-- Whatever is stored is found under its name, and the clock shows a time that it may show. -/
structure Orderly (q : Quiet) (h : History) : Prop where
  shown : q.shows h.clock
  named : ∀ {k : Kind} {ref : ResourceRef} {o : Object k}, h.store.find? k ref = some o →
    o.name = ref.name

theorem Orderly.rests (ho : h.Orderly q) (hrests : h.Rests q h') :
  h'.Orderly q
  := by
  constructor
  · apply hrests.shown ho.shown
  · intro k ref o hfind
    rw [hrests.store] at hfind
    apply ho.named hfind

theorem Orderly.wrote {ref : ResourceRef} {o : Object k} (ho : h.Orderly q) (hw : h.Wrote ref o h') :
  h'.Orderly q
  := by
  constructor
  · rw [hw.clock]
    apply ho.shown
  · intro k' ref' o' hfind
    by_cases hsame : k' = k ∧ ref' = ref
    · obtain ⟨rfl, rfl⟩ := hsame
      rw [hw.find?_self] at hfind
      obtain rfl := Option.some.inj hfind
      apply hw.isAt.2
    · rw [hw.find?_of_ne hsame] at hfind
      apply ho.named hfind

/-- Commits have been added to a history, and the objects elsewhere have been left alone and have no
new versions. -/
structure Extends (places : Kind → ResourceRef → Prop) (h : History) (log : List Commit)
    (h' : History) : Prop where
  commits : h'.commits = h.commits ++ log
  others : ∀ {k ref}, ¬ places k ref → h'.store.find? k ref = h.store.find? k ref
  past : ∀ {k ref} {o : Object k}, ¬ places k ref → o.IsAt ref → (⟨k, o⟩ : Sigma Object) ∈ h'.past →
    (⟨k, o⟩ : Sigma Object) ∈ h.past
  clock : ¬ h'.clock.before h.clock

/-- One object. -/
def only (k : Kind) (ref : ResourceRef) (k' : Kind) (ref' : ResourceRef) : Prop := k' = k ∧ ref' = ref

variable {places places' : Kind → ResourceRef → Prop} {log log' : List Commit}

theorem Rests.extends (hrests : h.Rests q h') (places : Kind → ResourceRef → Prop) :
  h.Extends places [] h'
  := by
  refine ⟨?_, ?_, ?_, hrests.clock⟩
  · rw [hrests.commits, List.append_nil]
  · intro k ref _
    rw [hrests.store]
  · intro k ref o _ _ hmem
    rw [← hrests.past]
    apply hmem

theorem Extends.refl (places : Kind → ResourceRef → Prop) (h : History) :
  h.Extends places [] h
  := ⟨by rw [List.append_nil], fun _ => rfl, fun _ _ hmem => hmem, by simp⟩

theorem Wrote.extends {ref : ResourceRef} {o : Object k} (hw : h.Wrote ref o h') :
  h.Extends (only k ref) [⟨k, h.store.find? k ref, h.store.stamped ref.ns o⟩] h'
  := by
  refine ⟨hw.commits, fun hother => hw.find?_of_ne hother, ?_, hw.later.clock⟩
  intro k' ref' o' hother hat hmem
  rcases hw.of_mem_past hmem with hsame | hmem
  · cases hsame
    exact absurd ⟨rfl, hat.eq hw.isAt⟩ hother
  · apply hmem

theorem Extends.trans (h₁ : h.Extends places log h') (h₂ : h'.Extends places log' h'') :
  h.Extends places (log ++ log') h''
  := by
  refine ⟨?_, ?_, ?_, Instant.not_before_trans h₂.clock h₁.clock⟩
  · rw [h₂.commits, h₁.commits, List.append_assoc]
  · intro k ref hother
    rw [h₂.others hother, h₁.others hother]
  · intro k ref o hother hat hmem
    apply h₁.past hother hat (h₂.past hother hat hmem)

theorem Extends.mono (hextends : h.Extends places log h')
    (hplaces : ∀ k ref, places k ref → places' k ref) :
  h.Extends places' log h'
  := ⟨hextends.commits, fun hother => hextends.others (fun hplace => hother (hplaces _ _ hplace)),
    fun hother => hextends.past (fun hplace => hother (hplaces _ _ hplace)), hextends.clock⟩

theorem Extends.rests (hextends : h.Extends places log h') (hrests : h'.Rests q h'') :
  h.Extends places log h''
  := by
  have := hextends.trans (hrests.extends places)
  rw [List.append_nil] at this
  apply this

/-- A write over what was live some time ago is all that has been added since. -/
theorem Wrote.extends_of_rests {ref : ResourceRef} {o : Object k} {live : Option (Object k)}
    (hw : h'.Wrote ref o h'') (hrests : h.Rests q h') (hlive : h.store.find? k ref = live) :
  h.Extends (only k ref) [⟨k, live, h'.store.stamped ref.ns o⟩] h''
  := by
  have hadded := (hrests.extends (only k ref)).trans hw.extends
  rw [List.nil_append, show h'.store.find? k ref = live by rw [hrests.store, hlive]] at hadded
  apply hadded

/-! ### The log of the store -/

/-- The store has logged the commits since a first history. -/
def Tallies (first h : History) : Prop :=
  ∃ log, h.commits = first.commits ++ log ∧ h.store.writes = first.store.writes ++ log.map Commit.write

theorem Tallies.refl (h : History) :
  h.Tallies h
  := ⟨[], by simp, by simp⟩

theorem Tallies.rests {first : History} (ht : first.Tallies h) (hrests : h.Rests q h') :
  first.Tallies h'
  := by
  obtain ⟨log, hcommits, hwrites⟩ := ht
  exact ⟨log, hrests.commits.trans hcommits, by rw [hrests.store, hwrites]⟩

theorem Tallies.committed {first : History} {verb : WriteVerb} {ns : String} {o : Object k}
    (ht : first.Tallies h) (hverb : verb = if (h.store.find? k ⟨ns, o.name⟩).isNone then .create else .update) :
  first.Tallies (h.committed (h.store.commit verb ns o).2 ⟨ns, o.name⟩ (h.store.stamped ns o))
  := by
  obtain ⟨log, hcommits, hwrites⟩ := ht
  refine ⟨log ++ [⟨k, h.store.find? k ⟨ns, o.name⟩, h.store.stamped ns o⟩], ?_, ?_⟩
  · rw [← List.append_assoc, ← hcommits]
    rfl
  · rw [List.map_append, ← List.append_assoc, ← hwrites, hverb]
    rfl

/-- Every quiet answer is tallied. -/
theorem Tallies.quiet {first : History} {r : Request} {answer : r.Answer} (ht : first.Tallies h)
    (hquiet : History.quiet q h r answer h'') :
  first.Tallies h''
  := by
  obtain ⟨h', hrests, hreply⟩ := hquiet
  have ht' := ht.rests hrests
  cases r with
  | cached k ref => exact hreply.1 ▸ ht'
  | get k ref => exact hreply.1 ▸ ht'
  | create k ns o =>
    obtain ⟨e, s, -, -, rfl⟩ | ⟨stored, s, hcreate, -, rfl⟩ := hreply
    · apply ht'
    · obtain ⟨hnone, rfl, rfl⟩ := Store.create_eq_ok hcreate
      apply ht'.committed
      rw [hnone]
      rfl
  | update k ns o =>
    obtain ⟨e, s, -, -, rfl⟩ | ⟨stored, s, hupdate, -, rfl⟩ := hreply
    · apply ht'
    · obtain ⟨live, hlive, -, rfl, rfl⟩ := Store.update_eq_ok hupdate
      apply ht'.committed
      rw [hlive]
      rfl
  | clock => exact hreply.2 ▸ ht'
  | newKey => exact hreply.2.2 ▸ ht'
  | publish event =>
    obtain rfl := hreply
    apply ht'

end History

/-! ### Requests -/

namespace Procedure

variable {α β : Type} {q : Quiet} {k : Kind} {h : History} {ref : ResourceRef}
variable {stop : Stop → History → Prop}

/-- In quiet surroundings the procedure ends with `ok` or stops with `stop`. -/
abbrev Quietly (q : Quiet) (p : Procedure α) (ok : α → History → Prop) (stop : Stop → History → Prop)
    (h : History) : Prop :=
  p.Safe (History.quiet q) (History.Orderly q) ok stop h

/-- What follows a procedure runs from where that ends, in a history that is still in order. -/
theorem Quietly.bind {p : Procedure α} {f : α → Procedure β} {ok : α → History → Prop}
    {ok' : β → History → Prop} (ho : h.Orderly q) (hp : p.Quietly q ok stop h)
    (hf : ∀ a h', h'.Orderly q → ok a h' → (f a).Quietly q ok' stop h') :
  (p >>= f).Quietly q ok' stop h
  := safe_bind_keeps ho hp hf

/-- What a procedure comes to in quiet surroundings is what it ends with however it is answered. -/
theorem ends_of_quiet {outside : Outside} {keep : History → Prop} {p : Procedure α}
    {ok : α → History → Prop} {result : Except Stop α} {h' : History}
    (hshows : ∀ t, outside.shows t) (hcoherent : ∀ {h}, keep h → h.Coherent outside.follows)
    (hfollows : ∀ k ref, outside.follows k ref → q.watched.contains ref.ns)
    (hp : p.Safe (History.step outside) keep ok stop h) (hk : keep h)
    (hyields : Program.Yields (History.quiet q) p.run h result h') :
  keep h' ∧ Ends ok stop result h'
  := by
  have hsimulated : p.run.Safe (History.quiet q) (fun _ => True)
      (fun result h' => ∃ h₁, keep h₁ ∧ h₁ = h' ∧ Ends ok stop result h₁) h := by
    apply Program.Safe.simulate _ hk rfl (safe_iff.mp hp)
    rintro h₁ _ op answer h₂ hk₁ rfl hquiet
    exact ⟨h₂, History.step_of_quiet hshows (hcoherent hk₁) hfollows hquiet, rfl⟩
  obtain ⟨_, hk', rfl, hended⟩ := hsimulated.of_yields hyields
  exact ⟨hk', hended⟩

/-- Procedures for the members of a list run one after the other, and what they commit is appended. -/
theorem quietly_forM {γ : Type} {places : Kind → ResourceRef → Prop} {l : List α}
    {f : α → Procedure Unit} {fits : α → γ → Prop} {log : γ → List Commit} (ho : h.Orderly q)
    (hf : ∀ a ∈ l, ∀ h, h.Orderly q →
      (f a).Quietly q (fun _ h' => ∃ c, fits a c ∧ h.Extends places (log c) h') stop h) :
  (l.forM f).Quietly q
    (fun _ h' => ∃ cs, List.Forall₂ fits l cs ∧ h.Extends places (cs.flatMap log) h') stop h
  := by
  induction l generalizing h with
  | nil =>
    apply safe_pure
    exact ⟨[], .nil, .refl places h⟩
  | cons a l ih =>
    apply Quietly.bind ho (hf a List.mem_cons_self h ho)
    rintro _ h₁ ho₁ ⟨c, hfits, hextends⟩
    apply safe_mono (ih ho₁ (fun a' ha' => hf a' (List.mem_cons_of_mem _ ha')))
    rintro _ h₂ ⟨cs, hall, hextends₂⟩
    refine ⟨c :: cs, .cons hfits hall, ?_⟩
    rw [List.flatMap_cons]
    apply hextends.trans hextends₂

theorem quietly_cached (ho : h.Orderly q) (hwatched : q.watched.contains ref.ns)
    {ok : Option (Object k) → History → Prop}
    (hok : ∀ {h'}, h.Rests q h' → ok (h.store.find? k ref) h') :
  (cached k ref).Quietly q ok stop h
  := by
  apply safe_ask
  rintro answer _ ⟨h', hrests, rfl, hanswer⟩
  rw [hanswer hwatched, hrests.store]
  exact ⟨ho.rests hrests, hok hrests⟩

theorem quietly_askGet (ho : h.Orderly q) {ok : Except Error (Object k) → History → Prop}
    (hok : ∀ {h'}, h.Rests q h' → ok (h.store.get k ref) h') :
  (ask (.get k ref)).Quietly q ok stop h
  := by
  apply safe_ask
  rintro answer _ ⟨h', hrests, rfl, rfl⟩
  rw [hrests.store]
  exact ⟨ho.rests hrests, hok hrests⟩

theorem quietly_find (ho : h.Orderly q) {ok : Option (Object k) → History → Prop}
    (hok : ∀ {h'}, h.Rests q h' → ok (h.store.find? k ref) h') :
  (find k ref).Quietly q ok stop h
  := by
  apply safe_bind
  apply quietly_askGet ho
  intro h' hrests
  have hfound := hok hrests
  unfold Store.get
  cases hfind : h.store.find? k ref with
  | some o =>
    rw [hfind] at hfound
    apply safe_pure hfound
  | none =>
    rw [hfind] at hfound
    apply safe_pure hfound

theorem quietly_clock (ho : h.Orderly q) {ok : Instant → History → Prop}
    (hok : ∀ {h'}, h.Rests q h' → h'.Orderly q → ok h'.clock h') :
  clock.Quietly q ok stop h
  := by
  apply safe_ask
  rintro answer _ ⟨h', hrests, rfl, rfl⟩
  exact ⟨ho.rests hrests, hok hrests (ho.rests hrests)⟩

theorem quietly_newKey (ho : h.Orderly q) {ok : KeyPair → History → Prop}
    (hok : ∀ {h'} (seed : Nat), h.Rests q h' → q.makes h.store (KeyPair.generate seed) →
      ok (KeyPair.generate seed) h') :
  newKey.Quietly q ok stop h
  := by
  apply safe_ask
  rintro answer _ ⟨h', hrests, ⟨seed, rfl⟩, hmakes, rfl⟩
  rw [hrests.store] at hmakes
  exact ⟨ho.rests hrests, hok seed hrests hmakes⟩

theorem quietly_publish (ho : h.Orderly q) {o : Object k} {reason action note : String}
    {ok : Unit → History → Prop} (hok : ∀ {h'}, h.Rests q h' → ok () h') :
  (publish o reason action note).Quietly q ok stop h
  := by
  apply safe_ask
  rintro answer _ ⟨h', hrests, rfl⟩
  exact ⟨ho.rests hrests, hok hrests⟩

/-- A creation where there is nothing. -/
theorem quietly_askCreate (ho : h.Orderly q) {o : Object k} (hname : o.name = ref.name)
    (hnone : h.store.find? k ref = none) {ok : Except Error (Object k) → History → Prop}
    (hok : ∀ {h' h''}, h.Rests q h' → h'.Wrote ref o h'' →
      ok (.ok (h'.store.stamped ref.ns o)) h'') :
  (ask (.create k ref.ns o)).Quietly q ok stop h
  := by
  obtain ⟨ns, name⟩ := ref
  obtain rfl : o.name = name := hname
  apply safe_ask
  rintro answer _ ⟨h', hrests, ⟨e, s, hcreate, rfl, rfl⟩ | ⟨stored, s, hcreate, rfl, rfl⟩⟩
  · rw [Store.create, hrests.store, hnone] at hcreate
    cases hcreate
  · obtain ⟨-, rfl, -⟩ := Store.create_eq_ok hcreate
    have hw : h'.Wrote ⟨ns, o.name⟩ o _ := .of_create hcreate
    exact ⟨(ho.rests hrests).wrote hw, hok hrests hw⟩

/-- A creation where there is an object. -/
theorem quietly_askCreate_of_some (ho : h.Orderly q) {o live : Object k} (hname : o.name = ref.name)
    (hlive : h.store.find? k ref = some live) {ok : Except Error (Object k) → History → Prop}
    (hok : ∀ {h'}, h.Rests q h' → ok (.error (ApiFailure.alreadyExists k ref.name)) h') :
  (ask (.create k ref.ns o)).Quietly q ok stop h
  := by
  obtain ⟨ns, name⟩ := ref
  obtain rfl : o.name = name := hname
  apply safe_ask
  rintro answer _ ⟨h', hrests, ⟨e, s, hcreate, rfl, rfl⟩ | ⟨stored, s, hcreate, rfl, rfl⟩⟩
  · rw [Store.create, hrests.store, hlive] at hcreate
    cases hcreate
    exact ⟨ho.rests hrests, hok hrests⟩
  · rw [Store.create, hrests.store, hlive] at hcreate
    cases hcreate

/-- An update of the live version. -/
theorem quietly_update (ho : h.Orderly q) {o live : Object k} (hname : o.name = ref.name)
    (hlive : h.store.find? k ref = some live) (hversion : live.version = o.version)
    {ok : Object k → History → Prop}
    (hok : ∀ {h' h''}, h.Rests q h' → h'.Wrote ref o h'' → ok (h'.store.stamped ref.ns o) h'') :
  (update k ref.ns o).Quietly q ok stop h
  := by
  obtain ⟨ns, name⟩ := ref
  obtain rfl : o.name = name := hname
  apply safe_bind
  apply safe_ask
  rintro answer _ ⟨h', hrests, ⟨e, s, hupdate, rfl, rfl⟩ | ⟨stored, s, hupdate, rfl, rfl⟩⟩
  · rw [Store.update, hrests.store, hlive] at hupdate
    simp [hversion] at hupdate
  · obtain ⟨-, -, -, rfl, -⟩ := Store.update_eq_ok hupdate
    have hw : h'.Wrote ⟨ns, o.name⟩ o _ := .of_update hupdate
    exact ⟨(ho.rests hrests).wrote hw, safe_pure (hok hrests hw)⟩

/-- An update of any version, which may be refused. Then nothing has happened. -/
theorem quietly_tryUpdate (ho : h.Orderly q) {o : Object k} (hname : o.name = ref.name)
    {ok : Object k → History → Prop}
    (hok : ∀ {h' h''}, h.Rests q h' → h''.Orderly q → h'.Wrote ref o h'' →
      ok (h'.store.stamped ref.ns o) h'')
    (hstop : ∀ {h' e}, h.Rests q h' → stop (.error e) h') :
  (update k ref.ns o).Quietly q ok stop h
  := by
  obtain ⟨ns, name⟩ := ref
  obtain rfl : o.name = name := hname
  apply safe_bind
  apply safe_ask
  rintro answer _ ⟨h', hrests, ⟨e, s, -, rfl, rfl⟩ | ⟨stored, s, hupdate, rfl, rfl⟩⟩
  · exact ⟨ho.rests hrests, safe_fail (hstop hrests)⟩
  · obtain ⟨-, -, -, rfl, -⟩ := Store.update_eq_ok hupdate
    have hw : h'.Wrote ⟨ns, o.name⟩ o _ := .of_update hupdate
    have ho' := (ho.rests hrests).wrote hw
    exact ⟨ho', safe_pure (hok hrests ho' hw)⟩

/-- A creation, which may be refused. Then nothing has happened. -/
theorem quietly_tryCreate (ho : h.Orderly q) {o : Object k} (hname : o.name = ref.name)
    {ok : Object k → History → Prop}
    (hok : ∀ {h' h''}, h.Rests q h' → h''.Orderly q → h'.Wrote ref o h'' →
      ok (h'.store.stamped ref.ns o) h'')
    (hstop : ∀ {h' e}, h.Rests q h' → stop (.error e) h') :
  (create k ref.ns o).Quietly q ok stop h
  := by
  obtain ⟨ns, name⟩ := ref
  obtain rfl : o.name = name := hname
  apply safe_bind
  apply safe_ask
  rintro answer _ ⟨h', hrests, ⟨e, s, -, rfl, rfl⟩ | ⟨stored, s, hcreate, rfl, rfl⟩⟩
  · exact ⟨ho.rests hrests, safe_fail (hstop hrests)⟩
  · obtain ⟨-, rfl, -⟩ := Store.create_eq_ok hcreate
    have hw : h'.Wrote ⟨ns, o.name⟩ o _ := .of_create hcreate
    have ho' := (ho.rests hrests).wrote hw
    exact ⟨ho', safe_pure (hok hrests ho' hw)⟩

/-- A secret is stored over the live one that it was made from, whether that has a version or not. -/
theorem quietly_store (ho : h.Orderly q) {o live : Secret} (hname : o.name = ref.name)
    (hlive : h.store.find? .secret ref = some live) (hversion : live.version = o.version)
    {ok : Secret → History → Prop}
    (hok : ∀ {h' h''}, h.Rests q h' → h'.Wrote ref o h'' → ok (h'.store.stamped ref.ns o) h'') :
  (store ref.ns o).Quietly q ok stop h
  := by
  unfold store
  split
  · apply quietly_update ho hname hlive hversion hok
  · apply safe_bind
    apply quietly_askCreate_of_some ho hname hlive
    intro h₁ hrests₁
    have hexists : (ApiFailure.alreadyExists .secret ref.name).isAlreadyExists = true := rfl
    simp only [hexists, if_true]
    have ho₁ := ho.rests hrests₁
    have href : (⟨ref.ns, o.name⟩ : ResourceRef) = ref := by rw [hname]
    rw [href]
    apply safe_bind
    apply safe_bind
    apply quietly_askGet ho₁
    intro h₂ hrests₂
    have hlive₂ : h₂.store.find? .secret ref = some live := by
      rw [hrests₂.store, hrests₁.store, hlive]
    rw [Store.get, hrests₁.store, hlive]
    apply safe_pure
    have hname' : ({ o with metadata := { o.metadata with version := live.version } } : Secret).name
        = ref.name := hname
    apply quietly_update (ho₁.rests hrests₂) hname' hlive₂ rfl
    intro h₃ h₄ hrests₃ hw
    -- The version that is sent along is not part of what is stored.
    have hw' : h₃.Wrote ref o h₄ := hw
    apply hok (hrests₁.trans (hrests₂.trans hrests₃)) hw'

end Procedure

end CertKeeper
