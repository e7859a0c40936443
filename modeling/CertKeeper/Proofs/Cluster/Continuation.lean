import CertKeeper.Proofs.Cluster.Quiet
import CertKeeper.Proofs.Cluster.World

/-!
# Histories that go on in a world

A history `Continues` in a calm world that has its store and its clock. Such a world answers like quiet
surroundings (`History.Continues.replies`), so each of its answers is one that the history allows
(`History.Continues.handle`). Hence what a program comes to in the world is met in some history
(`History.Continues.met`), and what holds of a procedure however it is answered also holds of what it
leads to (`Procedure.leads_of_safe`).
-/

namespace CertKeeper

namespace History

variable {watched : NameSet} {outside : Outside} {h : History} {w w' : World}

/-- A calm world has the store and the clock of a history. -/
structure Continues (watched : NameSet) (h : History) (w : World) : Prop where
  calm : w.Calm watched
  store : h.store = w.store
  clock : h.clock = w.clock

/-- A calm world answers like quiet surroundings, if the keys that it makes may be made. -/
theorem Continues.replies {q : Quiet} (hcontinues : h.Continues q.watched w)
    (hmakes : ∀ s key, q.makes s key) (r : Request) :
  ∃ h', h.Replies q r (World.handle r w).1 h' ∧ h'.Continues q.watched (World.handle r w).2
  := by
  obtain ⟨hw, hstore, hclock⟩ := hcontinues
  cases r with
  | cached k ref =>
    refine ⟨h, ⟨rfl, ?_⟩, hw, hstore, hclock⟩
    intro hwatched
    rw [hstore]
    apply hw.cached?_eq hwatched
  | get k ref =>
    simp only [World.handle, hw.call_eq]
    refine ⟨h, ⟨rfl, ?_⟩, ?_, hstore, hclock⟩
    · rw [hstore]
    · exact World.Rests.calm (hw.rests rfl hw.snapshot rfl rfl)
  | create k ns o =>
    simp only [World.handle, hw.call_eq]
    cases hcreate : w.store.create ns o with
    | mk result s =>
      have hreply := hcreate
      rw [← hstore] at hreply
      cases result with
      | ok stored =>
        refine ⟨h.committed s ⟨ns, o.name⟩ stored, .inr ⟨stored, s, hreply, rfl, rfl⟩, ?_, rfl, hclock⟩
        obtain ⟨-, -, rfl⟩ := Store.create_eq_ok hcreate
        exact hw.commit .create rfl hw.snapshot rfl
      | error e =>
        obtain rfl := Store.create_eq_error hcreate
        refine ⟨h, .inl ⟨e, _, hreply, rfl, rfl⟩, ?_, hstore, hclock⟩
        exact World.Rests.calm (hw.rests rfl hw.snapshot rfl rfl)
  | update k ns o =>
    simp only [World.handle, hw.call_eq]
    cases hupdate : w.store.update ns o with
    | mk result s =>
      have hreply := hupdate
      rw [← hstore] at hreply
      cases result with
      | ok stored =>
        refine ⟨h.committed s ⟨ns, o.name⟩ stored, .inr ⟨stored, s, hreply, rfl, rfl⟩, ?_, rfl, hclock⟩
        obtain ⟨-, -, -, -, rfl⟩ := Store.update_eq_ok hupdate
        exact hw.commit .update rfl hw.snapshot rfl
      | error e =>
        obtain rfl := Store.update_eq_error hupdate
        refine ⟨h, .inl ⟨e, _, hreply, rfl, rfl⟩, ?_, hstore, hclock⟩
        exact World.Rests.calm (hw.rests rfl hw.snapshot rfl rfl)
  | clock => exact ⟨h, ⟨hclock.symm, rfl⟩, hw, hstore, hclock⟩
  | newKey =>
    refine ⟨h, ⟨⟨_, rfl⟩, hmakes _ _, rfl⟩, ?_, hstore, hclock⟩
    exact World.Rests.calm (hw.rests hw.faults hw.snapshot rfl rfl)
  | publish event =>
    simp only [World.handle, hw.faults, Fault.strike]
    refine ⟨h, rfl, ?_, ?_, ?_⟩
    all_goals split
    · exact hw
    · exact World.Rests.calm (hw.rests rfl hw.snapshot rfl rfl)
    · exact hstore
    · exact hstore
    · exact hclock
    · exact hclock

/-- The answer of a calm world is one that the history allows, if nothing happens before. -/
theorem Continues.answers (hcontinues : h.Continues watched w) (hcoherent : h.Coherent outside.follows)
    (hfollows : ∀ k ref, outside.follows k ref → watched.contains ref.ns) (r : Request) :
  ∃ h', h.Answers outside r (World.handle r w).1 h' ∧ h'.Continues watched (World.handle r w).2
  := by
  let q : Quiet := { watched := watched }
  have hreplies : ∃ h', h.Replies q r (World.handle r w).1 h' ∧ h'.Continues watched (World.handle r w).2 :=
    Continues.replies hcontinues (fun _ _ => trivial) r
  obtain ⟨h', hreply, hcontinues'⟩ := hreplies
  exact ⟨h', hreply.answers hcoherent hfollows, hcontinues'⟩

/-- The answer of a calm world is one that the history allows. -/
theorem Continues.handle (hcontinues : h.Continues watched w) (hcoherent : h.Coherent outside.follows)
    (hfollows : ∀ k ref, outside.follows k ref → watched.contains ref.ns) {r : Request}
    {answer : r.Answer} (hanswer : Program.handled World.handle w r answer w') :
  ∃ h', step outside h r answer h' ∧ h'.Continues watched w'
  := by
  have hanswers := hcontinues.answers hcoherent hfollows r
  rw [show World.handle r w = (answer, w') from hanswer] at hanswers
  obtain ⟨h', hanswers, hcontinues'⟩ := hanswers
  exact ⟨h', ⟨h, .none, hanswers⟩, hcontinues'⟩

/-- What a program comes to in a calm world is met while programs of its kind are begun over and
over. -/
theorem Continues.met {α : Type} {begun : Program Request.Answer α → Prop} {first : History}
    {p : Program Request.Answer α} (hcontinues : h.Continues watched w)
    (hcoherent : h.Coherent outside.follows)
    (hfollows : ∀ k ref, outside.follows k ref → watched.contains ref.ns)
    (hmet : Program.Met (step outside) begun first p h) :
  ∃ h', Program.Met (step outside) begun first (.done (p.run World.handle w).1) h'
    ∧ h'.Continues watched (p.run World.handle w).2
  := by
  induction p generalizing h w with
  | done a => exact ⟨h, hmet, hcontinues⟩
  | ask r next ih =>
    obtain ⟨h', hstep, hcontinues'⟩ := hcontinues.handle hcoherent hfollows rfl
    apply ih _ hcontinues' (hcoherent.step hstep) (hmet.answered hstep)

/-- What a procedure comes to in a calm world it may come to in quiet surroundings. -/
theorem Continues.yields {α : Type} {q : Quiet} (hcontinues : h.Continues q.watched w)
    (hmakes : ∀ s key, q.makes s key) (p : Procedure α) :
  ∃ h', Program.Yields (History.quiet q) p.run h (World.run p w).1 h'
    ∧ h'.Continues q.watched (World.run p w).2
  := by
  apply Program.yields_of_run _ p.run hcontinues
  intro h w r hcontinues
  obtain ⟨h', hreply, hcontinues'⟩ := hcontinues.replies hmakes r
  exact ⟨h', ⟨h, .refl q h, hreply⟩, hcontinues'⟩

end History

namespace Procedure

variable {α : Type} {watched : NameSet} {outside : Outside} {h : History} {w : World}
variable {keep : History → Prop}

/-- A procedure leads to what it ends with however it is answered. -/
theorem leads_of_safe (hcoherent : ∀ {h : History}, keep h → h.Coherent outside.follows)
    (hfollows : ∀ k ref, outside.follows k ref → watched.contains ref.ns)
    {p : Procedure α} {ok : α → History → Prop} {stop : Stop → History → Prop}
    (hcontinues : h.Continues watched w) (hk : keep h)
    (hp : p.Safe (History.step outside) keep ok stop h) :
  p.Leads (fun a w' => ∃ h', keep h' ∧ h'.Continues watched w' ∧ ok a h')
    (fun e w' => ∃ h', keep h' ∧ h'.Continues watched w' ∧ stop e h') w
  := by
  have hsimulated : p.run.Safe (Program.handled World.handle) (fun _ => True)
      (fun r w' => ∃ h', keep h' ∧ h'.Continues watched w' ∧ Ends ok stop r h') w := by
    apply Program.Safe.simulate _ hk hcontinues (safe_iff.mp hp)
    intro h w op answer w' hk hcontinues hanswer
    apply hcontinues.handle (hcoherent hk) hfollows hanswer
  apply safe_iff.mpr
  apply hsimulated.mono
  rintro (e | a) w' hended
  · apply hended
  · apply hended

end Procedure

end CertKeeper
