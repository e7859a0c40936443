import CertKeeper.Cluster.World
import CertKeeper.Proofs.Cluster.Procedure
import CertKeeper.Proofs.Program.Transcript

/-!
# The minutes of a procedure

The `Minutes` of a procedure hold what it asked for and what it was told. From them one can tell which
events it published (`Minutes.events`), which objects it stored (`Minutes.writes`), of which objects it
was told (`Minutes.told`), and whether a key pair has been made that was not stored yet
(`Minutes.newKey?`). A world records the events that are in the minutes of what is carried out in it,
unless it is silent (`World.exists_minutes`).
-/

namespace CertKeeper

/-- What a procedure asked for and what it was told, the latest exchange first. -/
abbrev Minutes := List (Program.Exchange Request.Answer)

/-- An object that was stored: as it was sent, as the store returned it, and the minutes before. -/
structure Written where
  kind : Kind
  sent : Object kind
  stored : Object kind
  before : Minutes

namespace Minutes

variable {past past' : Minutes}

/-- The event that an exchange published. -/
def event? : Program.Exchange Request.Answer → Option Event
  | ⟨.publish event, _⟩ => some event
  | _ => none

/-- The events that were published, in order. -/
def events (past : Minutes) : List Event := (past.filterMap event?).reverse

/-- The object that an exchange stored, if the store did not refuse it. -/
def written? (before : Minutes) : Program.Exchange Request.Answer → Option Written
  | ⟨.create k _ sent, .ok stored⟩ => some ⟨k, sent, stored, before⟩
  | ⟨.update k _ sent, .ok stored⟩ => some ⟨k, sent, stored, before⟩
  | _ => none

/-- The objects that were stored, in order. -/
def writes : Minutes → List Written
  | [] => []
  | exchange :: before => writes before ++ (written? before exchange).toList

/-- The key pair that was made last, if nothing has been stored since. -/
def newKey? : Minutes → Option KeyPair
  | [] => none
  | ⟨.newKey, key⟩ :: _ => some key
  | exchange :: before => if (written? before exchange).isSome then none else newKey? before

/-- The object that an exchange told of. -/
def told? : Program.Exchange Request.Answer → Option (Sigma Object)
  | ⟨.cached k _, some o⟩ => some ⟨k, o⟩
  | ⟨.get k _, .ok o⟩ => some ⟨k, o⟩
  | ⟨.create k _ _, .ok o⟩ => some ⟨k, o⟩
  | ⟨.update k _ _, .ok o⟩ => some ⟨k, o⟩
  | _ => none

/-- The objects that the procedure was told of, the latest first. -/
def told (past : Minutes) : List (Sigma Object) := past.filterMap told?

theorem mem_told_cons {o : Sigma Object} (h : o ∈ past.told) (exchange : Program.Exchange Request.Answer) :
  o ∈ told (exchange :: past)
  := by
  unfold told
  rw [List.filterMap_cons]
  cases told? exchange with
  | none => apply h
  | some o' => apply List.mem_cons_of_mem _ h

/-- What is stored is not published with the same request, and is made of a key pair that was there. -/
theorem of_written {exchange : Program.Exchange Request.Answer} {w : Written}
    (h : written? past exchange = some w) :
  event? exchange = none ∧ newKey? (exchange :: past) = none ∧ w.before = past
  := by
  obtain ⟨r, answer⟩ := exchange
  cases r with
  | create k ns o =>
    cases answer with
    | ok stored =>
      cases h
      exact ⟨rfl, rfl, rfl⟩
    | error e => cases h
  | update k ns o =>
    cases answer with
    | ok stored =>
      cases h
      exact ⟨rfl, rfl, rfl⟩
    | error e => cases h
  | _ => cases h

/-- Between two minutes nothing was stored, made or published. -/
structure Idles (past past' : Minutes) : Prop where
  writes : past'.writes = past.writes
  events : past'.events = past.events
  newKey? : past'.newKey? = past.newKey?
  told : ∀ o ∈ past.told, o ∈ past'.told

theorem Idles.refl (past : Minutes) :
  past.Idles past
  := ⟨rfl, rfl, rfl, fun _ h => h⟩

theorem Idles.trans {past'' : Minutes} (h : past.Idles past') (h' : past'.Idles past'') :
  past.Idles past''
  := ⟨h'.writes.trans h.writes, h'.events.trans h.events, h'.newKey?.trans h.newKey?,
    fun o ho => h'.told o (h.told o ho)⟩

theorem idles_cached {k : Kind} {ref : ResourceRef} (o : Option (Object k)) :
  past.Idles (⟨.cached k ref, o⟩ :: past)
  := ⟨List.append_nil _, rfl, rfl, fun _ h => mem_told_cons h _⟩

theorem idles_get {k : Kind} {ref : ResourceRef} (result : Except Error (Object k)) :
  past.Idles (⟨.get k ref, result⟩ :: past)
  := ⟨List.append_nil _, rfl, rfl, fun _ h => mem_told_cons h _⟩

theorem idles_clock (now : Instant) :
  past.Idles (⟨.clock, now⟩ :: past)
  := ⟨List.append_nil _, rfl, rfl, fun _ h => mem_told_cons h _⟩

theorem idles_create_error {k : Kind} {ns : String} {o : Object k} (e : Error) :
  past.Idles (⟨.create k ns o, .error e⟩ :: past)
  := ⟨List.append_nil _, rfl, rfl, fun _ h => mem_told_cons h _⟩

theorem idles_update_error {k : Kind} {ns : String} {o : Object k} (e : Error) :
  past.Idles (⟨.update k ns o, .error e⟩ :: past)
  := ⟨List.append_nil _, rfl, rfl, fun _ h => mem_told_cons h _⟩

theorem events_cons (exchange : Program.Exchange Request.Answer) (past : Minutes) :
  events (exchange :: past) = past.events ++ (event? exchange).toList
  := by
  unfold events
  cases h : event? exchange with
  | none => simp [h]
  | some event => simp [h]

end Minutes

/-! ### Minutes in a world -/

namespace World

/-- A call on the store leaves the record of the events alone. -/
theorem events_call {k : Kind} (w : World) (verb : CallVerb) (ref : ResourceRef) (sent : Option String)
    (action : Store → Except Error (Object k) × Store) :
  (w.call verb ref sent action).2.silent = w.silent
    ∧ (w.call verb ref sent action).2.events = w.events
  := by
  unfold call
  dsimp only
  cases (Fault.strike (.call verb k) ref.name w.faults).1.bind Fault.object <;> exact ⟨rfl, rfl⟩

/-- A request adds the event that it publishes to the record, unless the world is silent. -/
theorem events_handle (r : Request) (w : World) :
  (handle r w).2.silent = w.silent
    ∧ (handle r w).2.events
      = w.events ++ if w.silent then [] else (Minutes.event? ⟨r, (handle r w).1⟩).toList
  := by
  have hnothing : ∀ w' : World, w'.silent = w.silent ∧ w'.events = w.events →
      w'.silent = w.silent ∧ w'.events = w.events ++ if w.silent then [] else (none : Option Event).toList := by
    rintro w' ⟨hsilent, hevents⟩
    refine ⟨hsilent, ?_⟩
    rw [hevents]
    split <;> exact (List.append_nil _).symm
  cases r with
  | cached k ref => apply hnothing w ⟨rfl, rfl⟩
  | get k ref => apply hnothing _ (events_call w _ _ _ _)
  | create k ns o => apply hnothing _ (events_call w _ _ _ _)
  | update k ns o => apply hnothing _ (events_call w _ _ _ _)
  | clock => apply hnothing w ⟨rfl, rfl⟩
  | newKey => apply hnothing { w with keys := w.keys + 1 } ⟨rfl, rfl⟩
  | publish event =>
    unfold handle
    dsimp only
    cases h : w.silent with
    | true => simp [h]
    | false => simp [Minutes.event?]

/-- What is carried out in a world has minutes, and the world records the events in them. -/
theorem exists_minutes {α : Type} (p : Program Request.Answer α) (w : World) :
  ∃ past : Minutes,
    Program.Comes (Program.handled handle) p w past (.done (p.run handle w).1) (p.run handle w).2
      ∧ (p.run handle w).2.events = w.events ++ if w.silent then [] else past.events
  := by
  have hall : ∀ (q : Program Request.Answer α) (past : Minutes) (w' : World),
      Program.Comes (Program.handled handle) p w past q w' → w'.silent = w.silent →
      w'.events = w.events ++ (if w.silent then [] else past.events) →
      ∃ past' : Minutes,
        Program.Comes (Program.handled handle) p w past' (.done (q.run handle w').1) (q.run handle w').2
          ∧ (q.run handle w').2.events = w.events ++ if w.silent then [] else past'.events := by
    intro q
    induction q with
    | done a =>
      intro past w' hcomes _ hevents
      exact ⟨past, hcomes, hevents⟩
    | ask r next ih =>
      intro past w' hcomes hsilent hevents
      obtain ⟨hsilent', hevents'⟩ := events_handle r w'
      apply ih (handle r w').1 (⟨r, (handle r w').1⟩ :: past) (handle r w').2 (.answered hcomes rfl)
      · rw [hsilent', hsilent]
      · rw [hevents', hevents, hsilent, Minutes.events_cons, List.append_assoc]
        split <;> rfl
  apply hall p [] w .start rfl
  split <;> exact (List.append_nil _).symm

end World

end CertKeeper
