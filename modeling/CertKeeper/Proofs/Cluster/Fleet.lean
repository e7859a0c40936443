import CertKeeper.Proofs.Cluster.Call
import CertKeeper.Proofs.Cluster.Continuation
import Mathlib.Logic.Function.Basic
import Mathlib.Logic.Relation

/-!
# Fleets of programs on one store

The members of a `Fleet` are programs that use one store. Between two requests of a member any number
of requests of the others may be answered, calls may fail, and the caches of a member may show any
earlier version (`Fleet.Step`). To each member the others are what goes on outside of it
(`Fleet.Step.seen`). Hence what every member keeps however it is answered, and whatever others do, is
kept in all interleavings (`Fleet.Runs.keeps`).

Conversely a member may come to its end without the others (`Fleet.runs_of_continues`), and two members
that find no secret may both be about to create it (`Fleet.exists_race`).
-/

namespace CertKeeper

/-- What goes on outside of one of several programs on a store: the others write whatever they want
at any time, and the caches follow the watched namespaces. -/
def among (watched : NameSet) : Outside :=
  ⟨fun _ _ => True, fun _ ref => watched.contains ref.ns, fun _ => True⟩

/-- A cluster with all versions of its objects, and programs at work on it. Of each program there is
what is left of it, and what it has written. -/
structure Fleet (ι α : Type) where
  store : Store
  clock : Instant
  past : List (Sigma Object)
  left : ι → Program Request.Answer α
  commits : ι → List Commit

/-! ### What others do -/

namespace History

variable {outside : Outside} {h h' : History}

/-- A request leaves the history, or writes an object. -/
theorem Answers.wrote {r : Request} {answer : r.Answer} (ha : h.Answers outside r answer h') :
  h' = h ∨ ∃ (k : Kind) (ref : ResourceRef) (o : Object k), h.Wrote ref o h'
  := by
  cases r with
  | cached k ref => exact .inl ha.1
  | get k ref => exact .inl ha.1
  | create k ns o =>
    obtain ⟨e, -, rfl⟩ | ⟨stored, s, hcreate, -, rfl⟩ := ha
    · exact .inl rfl
    · exact .inr ⟨k, _, o, .of_create hcreate⟩
  | update k ns o =>
    obtain ⟨e, -, rfl⟩ | ⟨stored, s, hupdate, -, rfl⟩ := ha
    · exact .inl rfl
    · exact .inr ⟨k, _, o, .of_update hupdate⟩
  | clock => exact .inl ha.2
  | newKey => exact .inl ha.2
  | publish event => exact .inl ha

/-- A request is a drift for those who did not make it and may not rely on the object. -/
theorem Answers.drift {outside' : Outside} {r : Request} {answer : r.Answer}
    (ha : h.Answers outside r answer h') (hwrites : ∀ k ref, outside'.writes k ref)
    (commits : List Commit) :
  Drift outside' { h with commits := commits } { h' with commits := commits }
  := by
  cases r with
  | cached k ref => exact ha.1 ▸ .none
  | get k ref => exact ha.1 ▸ .none
  | create k ns o =>
    obtain ⟨e, -, rfl⟩ | ⟨stored, s, hcreate, -, rfl⟩ := ha
    · apply Drift.none
    · have hcreate' : Store.create { h with commits := commits }.store ns o = (.ok stored, s) := hcreate
      exact .create .none (hwrites _ _) hcreate'
  | update k ns o =>
    obtain ⟨e, -, rfl⟩ | ⟨stored, s, hupdate, -, rfl⟩ := ha
    · apply Drift.none
    · have hupdate' : Store.update { h with commits := commits }.store ns o = (.ok stored, s) := hupdate
      exact .update .none (hwrites _ _) hupdate'
  | clock => exact ha.2 ▸ .none
  | newKey => exact ha.2 ▸ .none
  | publish event =>
    obtain rfl := ha
    apply Drift.none

/-- What is safe from a history on is so after a drift, since it is so whatever happens. -/
theorem Drift.safe {α : Type} {keep : History → Prop} {p : Program Request.Answer α}
    (hd : Drift outside h h') (hp : p.Safe (step outside) keep (fun _ _ => True) h) :
  p.Safe (step outside) keep (fun _ _ => True) h'
  := by
  cases p with
  | done a => trivial
  | ask r next =>
    rintro answer h₂ ⟨h₁, hd₁, ha⟩
    exact hp answer h₂ ⟨h₁, hd.trans hd₁, ha⟩

end History

namespace Fleet

variable {ι α : Type} [DecidableEq ι]

/-- The history that a member finds itself in. -/
def view (f : Fleet ι α) (i : ι) : History := ⟨f.store, f.clock, f.past, f.commits i⟩

/-- The fleet after a request of a member, with the history that the member is in then and what is left
of it. -/
def answered (f : Fleet ι α) (i : ι) (h : History) (p : Program Request.Answer α) : Fleet ι α where
  store := h.store
  clock := h.clock
  past := h.past
  left := Function.update f.left i p
  commits := Function.update f.commits i h.commits

/-- What happens next in a fleet: time passes, or a request of a member is answered. -/
inductive Step (watched : ι → NameSet) (f : Fleet ι α) : Fleet ι α → Prop where
  | tick {now : Instant} : ¬ now.before f.clock → Step watched f { f with clock := now }
  | request {i : ι} {r : Request} {next : r.Answer → Program Request.Answer α} {answer : r.Answer}
      {h : History} : f.left i = .ask r next → (f.view i).Answers (among (watched i)) r answer h →
      Step watched f (f.answered i h (next answer))

/-- What a fleet comes to. A member that makes no requests any more has been cut short. -/
abbrev Runs (watched : ι → NameSet) : Fleet ι α → Fleet ι α → Prop :=
  Relation.ReflTransGen (Step watched)

variable {watched : ι → NameSet} {first f f' : Fleet ι α} {i : ι}

@[simp]
theorem view_answered_self (f : Fleet ι α) (i : ι) (h : History) (p : Program Request.Answer α) :
  (f.answered i h p).view i = h
  := by
  simp [view, answered]

theorem view_answered_of_ne {j : ι} (hne : j ≠ i) (f : Fleet ι α) (h : History)
    (p : Program Request.Answer α) :
  (f.answered i h p).view j = { h with commits := f.commits j }
  := by
  simp [view, answered, hne]

/-- A member may be given an answer that has no effect. -/
theorem exists_step (watched : ι → NameSet) {r : Request} {next : r.Answer → Program Request.Answer α}
    (hleft : f.left i = .ask r next) (answer : r.Answer)
    (hanswers : (f.view i).Answers (among (watched i)) r answer (f.view i)) :
  ∃ f', f.Step watched f' ∧ f'.left = Function.update f.left i (next answer)
    ∧ ∀ j, f'.view j = f.view j
  := by
  refine ⟨_, .request hleft hanswers, rfl, ?_⟩
  intro j
  by_cases hsame : j = i
  · subst hsame
    apply view_answered_self
  · apply view_answered_of_ne hsame

/-- What happens is either a request of a member, or to the member something that goes on outside. -/
theorem Step.seen (hstep : f.Step watched f') (i : ι) :
  (f'.left i = f.left i ∧ (f.view i).Drift (among (watched i)) (f'.view i))
    ∨ ∃ (r : Request) (next : r.Answer → Program Request.Answer α) (answer : r.Answer),
      f.left i = .ask r next ∧ f'.left i = next answer
        ∧ (f.view i).Answers (among (watched i)) r answer (f'.view i)
  := by
  cases hstep with
  | tick hclock => exact .inl ⟨rfl, .tick .none hclock trivial⟩
  | @request j r next answer h hleft hanswers =>
    by_cases hsame : i = j
    · subst hsame
      right
      refine ⟨r, next, answer, hleft, ?_, ?_⟩
      · simp [answered]
      · rw [view_answered_self]
        apply hanswers
    · left
      constructor
      · simp [answered, hsame]
      · rw [view_answered_of_ne hsame]
        apply hanswers.drift (fun _ _ => trivial) (f.commits i)

/-- What every member keeps, whatever the others do, is kept in all interleavings. -/
theorem Runs.keeps {keep : ι → History → Prop} (hruns : Runs watched first f)
    (hsteady : ∀ i, Procedure.Steady (among (watched i)) (keep i))
    (hfirst : ∀ i, keep i (first.view i))
    (hsafe : ∀ i, (first.left i).Safe (History.step (among (watched i))) (keep i) (fun _ _ => True)
      (first.view i)) (i : ι) :
  keep i (f.view i)
  := by
  have hall : ∀ i, keep i (f.view i)
      ∧ (f.left i).Safe (History.step (among (watched i))) (keep i) (fun _ _ => True) (f.view i) := by
    induction hruns with
    | refl =>
      intro i
      exact ⟨hfirst i, hsafe i⟩
    | tail _ hstep ih =>
      intro i
      obtain ⟨hk, hp⟩ := ih i
      obtain ⟨hleft, hdrift⟩ | ⟨r, next, answer, hleft, hnext, hanswers⟩ := hstep.seen i
      · rw [hleft]
        exact ⟨hsteady i hk hdrift, hdrift.safe hp⟩
      · rw [hleft] at hp
        rw [hnext]
        apply hp answer _ ⟨_, .none, hanswers⟩
  apply (hall i).1

/-! ### What was stored -/

/-- What happens next writes nothing, or is the write of a member. -/
theorem Step.wrote (hstep : f.Step watched f') :
  (f'.past = f.past ∧ f'.commits = f.commits)
    ∨ ∃ i c, f'.past = ⟨c.kind, c.stored⟩ :: f.past
      ∧ f'.commits = Function.update f.commits i (f.commits i ++ [c])
  := by
  cases hstep with
  | tick => exact .inl ⟨rfl, rfl⟩
  | @request i r next answer h hleft hanswers =>
    obtain rfl | ⟨k, ref, o, hw⟩ := hanswers.wrote
    · left
      refine ⟨rfl, ?_⟩
      apply Function.update_eq_self
    · right
      refine ⟨i, ⟨k, f.store.find? k ref, f.store.stamped ref.ns o⟩, hw.past, ?_⟩
      simp only [answered, hw.commits]
      rfl

/-- A write of a member is what is stored last. -/
theorem Step.past_of_commits (hstep : f.Step watched f') {c : Commit}
    (hwrites : f'.commits i = f.commits i ++ [c]) :
  f'.past = ⟨c.kind, c.stored⟩ :: f.past
  := by
  obtain ⟨-, hcommits⟩ | ⟨j, c', hpast, hcommits⟩ := hstep.wrote
  · rw [hcommits] at hwrites
    simp at hwrites
  · rw [hcommits, Function.update_apply] at hwrites
    split at hwrites
    · rename_i hsame
      subst hsame
      obtain rfl : c' = c := by simpa using hwrites
      apply hpast
    · simp at hwrites

/-- Whatever is stored was there at first, or a member wrote it. -/
theorem Runs.of_mem_past (hruns : Runs watched first f) {v : Sigma Object} (hv : v ∈ f.past) :
  v ∈ first.past ∨ ∃ i, ∃ c ∈ f.commits i, v = ⟨c.kind, c.stored⟩
  := by
  induction hruns with
  | refl => exact .inl hv
  | @tail f f' _ hstep ih =>
    obtain ⟨hpast, hcommits⟩ | ⟨i, c, hpast, hcommits⟩ := hstep.wrote
    · rw [hcommits]
      apply ih (hpast ▸ hv)
    · rw [hpast] at hv
      rcases List.mem_cons.mp hv with rfl | hv
      · refine .inr ⟨i, c, ?_, rfl⟩
        rw [hcommits, Function.update_self]
        apply List.mem_append_right _ List.mem_cons_self
      · obtain hv | ⟨j, c', hc', rfl⟩ := ih hv
        · exact .inl hv
        · refine .inr ⟨j, c', ?_, rfl⟩
          rw [hcommits, Function.update_apply]
          split
          · rename_i hsame
            apply List.mem_append_left _ (hsame ▸ hc')
          · apply hc'

/-- A write of a member happened at some time. -/
theorem Runs.exists_write (hruns : Runs watched first f) {c : Commit} (hc : c ∈ f.commits i)
    (hfirst : first.commits i = []) :
  ∃ f₁ f₂, Runs watched first f₁ ∧ f₁.Step watched f₂ ∧ f₂.commits i = f₁.commits i ++ [c]
  := by
  induction hruns with
  | refl =>
    rw [hfirst] at hc
    cases hc
  | @tail f f' hruns hstep ih =>
    obtain ⟨-, hcommits⟩ | ⟨j, c', -, hcommits⟩ := hstep.wrote
    · apply ih (hcommits ▸ hc)
    · by_cases hsame : i = j
      · subst hsame
        rw [hcommits, Function.update_self] at hc
        rcases List.mem_append.mp hc with hc | hc
        · apply ih hc
        · obtain rfl := List.mem_singleton.mp hc
          refine ⟨f, f', hruns, hstep, ?_⟩
          rw [hcommits, Function.update_self]
      · rw [hcommits, Function.update_of_ne hsame] at hc
        apply ih hc

/-- A member may be carried out to its end without the others, as it is in a calm world. -/
theorem runs_of_continues {w : World} {p : Program Request.Answer α} (hleft : f.left i = p)
    (hcontinues : (f.view i).Continues (watched i) w)
    (hcoherent : (f.view i).Coherent (fun _ _ => True)) :
  ∃ f', Runs watched f f' ∧ (f'.view i).Continues (watched i) (p.run World.handle w).2
    ∧ (f'.view i).Coherent (fun _ _ => True) ∧ ∀ j, j ≠ i → f'.commits j = f.commits j
  := by
  induction p generalizing f w with
  | done a => exact ⟨f, .refl, hcontinues, hcoherent, fun _ _ => rfl⟩
  | ask r next ih =>
    have hfollowed : (f.view i).Coherent (among (watched i)).follows :=
      hcoherent.mono (fun _ _ _ => trivial)
    obtain ⟨h, hanswers, hcontinues'⟩ := hcontinues.answers hfollowed (fun _ _ hwatched => hwatched) r
    have hstep : f.Step watched (f.answered i h (next (World.handle r w).1)) :=
      .request hleft hanswers
    have hcoherent' : h.Coherent (fun _ _ => True) := hcoherent.step ⟨_, .none, hanswers⟩
    rw [← view_answered_self f i h (next (World.handle r w).1)] at hcontinues' hcoherent'
    obtain ⟨f', hruns, hends, hcoherent₂, hidle⟩ :=
      ih _ (Function.update_self i _ f.left) hcontinues' hcoherent'
    refine ⟨f', .head hstep hruns, hends, hcoherent₂, ?_⟩
    intro j hne
    rw [hidle j hne]
    apply Function.update_of_ne hne

/-! ### Two members that create the same object -/

/-- Two members that ask for a secret may both find none and be about to create one. One of them
creates it, and the other one, whose creation is refused, reads it. -/
theorem exists_race (watched : Bool → NameSet) {first : Fleet Bool α} {ref : ResourceRef}
    {o b : Secret} {s : Store} {e : Error}
    {found : Option Secret → Program Request.Answer α}
    {created got : Except Error Secret → Program Request.Answer α}
    (hleft : ∀ i, first.left i = .ask (.cached .secret ref) found)
    (hfound : found none = .ask (.create .secret ref.ns o) created)
    (hcreated : created (.error e) = .ask (.get .secret ref) got) (hname : o.name = ref.name)
    (hcreate : first.store.create ref.ns o = (.ok b, s)) :
  ∃ f g f' : Fleet Bool α, first.Runs watched f ∧ f.commits = first.commits
    ∧ (∀ i, f.left i = .ask (.create .secret ref.ns o) created)
    ∧ f.Step watched g ∧ g.commits false = first.commits false ++ [⟨.secret, none, b⟩]
    ∧ g.view true = (first.view true).recorded s b
    ∧ g.Runs watched f' ∧ (∀ i, f'.view i = g.view i) ∧ f'.left true = got (.ok b)
  := by
  -- Both find nothing in their caches.
  obtain ⟨f₁, hstep₁, hleft₁, hview₁⟩ :=
    exists_step watched (hleft true) none ⟨rfl, fun _ _ ho => nomatch ho⟩
  have hother₁ : f₁.left false = .ask (.cached .secret ref) found := by
    rw [hleft₁, Function.update_of_ne (by decide), hleft]
  obtain ⟨f, hstep₂, hleft₂, hview₂⟩ :=
    exists_step watched hother₁ none ⟨rfl, fun _ _ ho => nomatch ho⟩
  have hview : ∀ i, f.view i = first.view i := fun i => (hview₂ i).trans (hview₁ i)
  have hcommits : f.commits = first.commits := funext (fun i => congrArg History.commits (hview i))
  have hasks : ∀ i, f.left i = .ask (.create .secret ref.ns o) created := by
    intro i
    rw [hleft₂, hleft₁, ← hfound]
    cases i <;> rfl
  -- One of them creates the secret.
  obtain ⟨g, hg⟩ : ∃ g, g = f.answered false ((first.view false).committed s ⟨ref.ns, o.name⟩ b)
      (created (.ok b)) := ⟨_, rfl⟩
  have hstep : f.Step watched g := by
    rw [hg]
    apply Step.request (hasks false)
    rw [hview]
    exact .inr ⟨b, s, hcreate, rfl, rfl⟩
  obtain ⟨hnone, hb, hs⟩ := Store.create_eq_ok hcreate
  have hwrites : g.commits false = first.commits false ++ [⟨.secret, none, b⟩] := by
    have hself : g.view false = (first.view false).committed s ⟨ref.ns, o.name⟩ b := by
      rw [hg, view_answered_self]
    rw [show g.commits false = (g.view false).commits from rfl, hself, ← hnone]
    rfl
  have hother : g.view true = (first.view true).recorded s b := by
    rw [hg, view_answered_of_ne (by decide), hcommits]
    rfl
  have hasks' : g.left true = .ask (.create .secret ref.ns o) created := by
    rw [hg, ← hasks true]
    rfl
  -- The other one must not create it again, and reads it.
  obtain ⟨g₁, hstep₃, hleft₃, hview₃⟩ := exists_step watched hasks' (.error e) (.inl ⟨_, rfl, rfl⟩)
  have hget : g₁.left true = .ask (.get .secret ref) got := by
    rw [hleft₃, Function.update_self, hcreated]
  have hlive : (g₁.view true).store.get .secret ref = .ok b := by
    have hfind : s.find? .secret ref = some b := by
      rw [hs, hb, show ref = ⟨ref.ns, o.name⟩ by rw [hname]]
      apply Store.find?_commit_self
    rw [hview₃, hother, History.store_recorded, Store.get, hfind]
  obtain ⟨f', hstep₄, hleft₄, hview₄⟩ := exists_step watched hget (.ok b) ⟨rfl, .inr hlive.symm⟩
  refine ⟨f, g, f', .tail (.tail .refl hstep₁) hstep₂, hcommits, hasks, hstep, hwrites, hother,
    .head hstep₃ (.head hstep₄ .refl), fun i => (hview₄ i).trans (hview₃ i), ?_⟩
  rw [hleft₄, Function.update_self]

end Fleet

end CertKeeper
