import CertKeeper.Definition.Sample
import CertKeeper.Proofs.Manager.Preflight

/-!
# Calls that fail

A pass does one of two things about a call on the store that fails. Either the failure is one of the
few that are `Handled`, and then the pass `Resumes` in the way that goes with the call: it rereads a
secret that another writer has created, creates a bundle that is not there, or rereads a bundle and
tries once more to publish it. Or the pass ends there and then with the error that the call was
answered with (`sync_stops_at_failure`). What is handled depends on the exchanges before the call, so
both are read off the transcript of the pass.
-/

namespace CertKeeper

variable {α β : Type}

/-- A secret with the version of the live one that it is to replace. -/
def Secret.over (s live : Secret) : Secret :=
  { s with metadata := { s.metadata with version := live.version } }

/-! ### What a transcript tells about the present stage -/

namespace Manager

/-- The object that was looked up in a cache last, with which the present stage began. -/
def lookedUp? : List Exchange → Option (Kind × ResourceRef)
  | [] => none
  | ⟨.cached k ref, _⟩ :: _ => some (k, ref)
  | _ :: past => lookedUp? past

/-- The last request was to look an object up in a cache. -/
def hasJustLookedUp : List Exchange → Bool
  | ⟨.cached _ _, _⟩ :: _ => true
  | _ => false

/-- The present stage has tried to store its object. A secret without values that is created because
none was found does not count. -/
def hasTried : List Exchange → Bool
  | [] => false
  | ⟨.cached _ _, _⟩ :: _ => false
  | ⟨.create .secret _ _, _⟩ :: past => !hasJustLookedUp past || hasTried past
  | ⟨.create .configMap _ _, _⟩ :: _ => true
  | ⟨.update .configMap _ _, _⟩ :: _ => true
  | _ :: past => hasTried past

/-- The pass goes on if a call fails so: a secret was created by another writer, a bundle is not there,
or the write of a bundle came too late. The second attempt of a stage to store its object is never
followed by another one. -/
def handles (past : List Exchange) (e : Error) : Request → Bool
  | .create .secret _ _ => !hasTried past && e.isAlreadyExists
  | .get .configMap _ => e.isNotFound
  | .create .configMap _ _ => !hasTried past && (e.isConflict || e.isAlreadyExists)
  | .update .configMap _ _ => !hasTried past && (e.isConflict || e.isAlreadyExists)
  | _ => false

/-- A bundle is reread and published once more, and then the work goes on as if the first write had
gone through. -/
def Republishes (past : List Exchange) (e : Error) (written : ConfigMap)
    (next : Except Error ConfigMap → Program Request.Answer (Except Stop α)) : Prop :=
  ∃ ref ca certs, ∃ rest : List TrustedCertificate → Procedure α,
    lookedUp? past = some (.configMap, ref)
    ∧ written.text? EntryKey.bundle = some (encodeBundle (ca.trusted :: certs))
    ∧ (∀ stored, ∃ event, next (.ok stored) = .ask (.publish event) (fun _ => (rest (ca.trusted :: certs)).run))
    ∧ next (.error e) = (do
        let live ← Procedure.find .configMap ref
        rest (← Bundle.publish ref ca live)).run

/-- The way in which a pass goes on if a call fails and that is handled. -/
def Resumes (past : List Exchange) (e : Error) :
    (r : Request) → (r.Answer → Program Request.Answer (Except Stop α)) → Prop
  | .create .secret ns o, next =>
    ∃ reread, next (.error e) = .ask (.get .secret ⟨ns, o.name⟩) reread
      ∧ ∀ live : Secret,
        if hasJustLookedUp past then
          -- The secret need only be there.
          reread (.ok live) = next (.ok live)
        else
          ∃ replaced,
            reread (.ok live) = .ask (.update .secret ns (Secret.over o live)) replaced
            ∧ ∀ stored, replaced (.ok stored) = next (.ok stored)
  | .get .configMap ref, next =>
    ∃ (ca : Authority) (created : Instant → Except Error ConfigMap → _),
      next (.error e) = .ask .clock (fun now =>
        .ask (.create .configMap ref.ns (Bundle.rewritten ref none [ca.trusted])) (created now))
  | .create .configMap _ o, next => Republishes past e o next
  | .update .configMap _ o, next => Republishes past e o next
  | _, _ => False

/-- What a program does about each failure of a request: it ends with the error, or it handles it. -/
def Answers (past : List Exchange) (r : Request)
    (next : r.Answer → Program Request.Answer (Except Stop α)) : Prop :=
  ∀ answer e, r.Fails answer e →
    (handles past e r = false → next answer = .done (.error (.error e)))
    ∧ (handles past e r = true → Resumes past e r next)

/-! ### Procedures that answer for every failure -/

/-- What follows a procedure that ended or stopped. -/
def continued (f : α → Procedure β) : Except Stop α → Program Request.Answer (Except Stop β)
  | .ok a => (f a).run
  | .error stop => .done (.error stop)

theorem run_bind (p : Procedure α) (f : α → Procedure β) :
  (p >>= f).run = p.run.bind (continued f)
  := by
  apply congrArg (Program.bind p.run)
  funext result
  cases result <;> rfl

variable {past : List Exchange} {e : Error}

theorem Republishes.bind {written : ConfigMap}
    {next : Except Error ConfigMap → Program Request.Answer (Except Stop α)}
    (h : Republishes past e written next) (f : α → Procedure β) :
  Republishes past e written (fun answer => (next answer).bind (continued f))
  := by
  obtain ⟨ref, ca, certs, rest, hlooked, htext, hstored, hretry⟩ := h
  refine ⟨ref, ca, certs, fun certs => rest certs >>= f, hlooked, htext, ?_, ?_⟩
  · intro stored
    obtain ⟨event, hevent⟩ := hstored stored
    refine ⟨event, ?_⟩
    simp only [hevent, Program.ask_bind, run_bind]
  · simp only [hretry, ← run_bind, bind_assoc]

theorem Resumes.bind {r : Request} {next : r.Answer → Program Request.Answer (Except Stop α)}
    (h : Resumes past e r next) (f : α → Procedure β) :
  Resumes past e r (fun answer => (next answer).bind (continued f))
  := by
  cases r with
  | create k ns o =>
    cases k with
    | configMap => apply Republishes.bind h
    | secret =>
      obtain ⟨reread, hreread, hlive⟩ := h
      refine ⟨fun answer => (reread answer).bind (continued f), ?_, ?_⟩
      · simp only [hreread, Program.ask_bind]
      · intro live
        have hthis := hlive live
        split
        · rename_i hlooked
          rw [if_pos hlooked] at hthis
          simp only [hthis]
        · rename_i hlooked
          rw [if_neg hlooked] at hthis
          obtain ⟨replaced, hreplaced, hstored⟩ := hthis
          refine ⟨fun answer => (replaced answer).bind (continued f), ?_, ?_⟩
          · simp only [hreplaced, Program.ask_bind]
          · intro stored
            simp only [hstored]
  | update k ns o =>
    cases k with
    | configMap => apply Republishes.bind h
    | secret => cases h
  | get k ref =>
    cases k with
    | configMap =>
      obtain ⟨ca, created, hcreated⟩ := h
      refine ⟨ca, fun now answer => (created now answer).bind (continued f), ?_⟩
      simp only [hcreated, Program.ask_bind]
    | secret => cases h
  | cached | clock | newKey | publish => cases h

theorem Answers.bind {r : Request} {next : r.Answer → Program Request.Answer (Except Stop α)}
    (h : Answers past r next) (f : α → Procedure β) :
  Answers past r (fun answer => (next answer).bind (continued f))
  := by
  intro answer e hfails
  obtain ⟨hends, hresumes⟩ := h answer e hfails
  constructor
  · intro hhandles
    simp only [hends hhandles]
    rfl
  · intro hhandles
    apply (hresumes hhandles).bind

/-- However it is answered, the procedure answers for every failure, and if it ends it ends with
`ok`. -/
def Answerable (p : Procedure α) (ok : α → List Exchange → Prop) (past : List Exchange) : Prop :=
  p.run.Throughout Answers (fun result past' => ∀ a, result = .ok a → ok a past') past

variable {ok : α → List Exchange → Prop}

theorem answerable_pure {a : α} (h : ok a past) :
  Answerable (pure a) ok past
  := by
  intro a' ha
  cases ha
  apply h

theorem answerable_throw (stop : Stop) :
  Answerable (throw stop : Procedure α) ok past
  := by
  intro a ha
  cases ha

theorem answerable_ofComputation {r : Except Stop α} (h : ∀ a, r = .ok a → ok a past) :
  Answerable (Procedure.ofComputation r) ok past
  := by
  cases r with
  | ok a => apply answerable_pure (h a rfl)
  | error stop => apply answerable_throw

theorem answerable_ofResult {r : Except Error α} (h : ∀ a, r = .ok a → ok a past) :
  Answerable (Procedure.ofResult r) ok past
  := by
  cases r with
  | ok a => apply answerable_pure (h a rfl)
  | error stop => apply answerable_throw

theorem Answerable.mono {p : Procedure α} {ok' : α → List Exchange → Prop}
    (h : Answerable p ok past) (hok : ∀ a past', ok a past' → ok' a past') :
  Answerable p ok' past
  := by
  apply Program.Throughout.mono h
  intro result past' hresult a ha
  apply hok a past' (hresult a ha)

theorem Answerable.bind {p : Procedure α} {f : α → Procedure β} {ok : β → List Exchange → Prop}
    (h : Answerable p (fun a past' => Answerable (f a) ok past') past) :
  Answerable (p >>= f) ok past
  := by
  unfold Answerable
  rw [run_bind]
  apply Program.Throughout.bind (fun past r next hanswers => Answers.bind hanswers f)
  apply Program.Throughout.mono h
  intro result past' hresult
  cases result with
  | ok a => apply hresult a rfl
  | error stop => apply answerable_throw

/-- A request comes with what is made of its answer. -/
theorem answerable_asking {r : Request} {f : r.Answer → Procedure α}
    (hanswers : Answers past r (fun answer => (f answer).run))
    (hf : ∀ answer, Answerable (f answer) ok (⟨r, answer⟩ :: past)) :
  Answerable (Procedure.ask r >>= f) ok past
  := ⟨hanswers, hf⟩

/-- A request that is not a call on the store does not fail. -/
theorem answerable_ask {r : Request} {ok : r.Answer → List Exchange → Prop} (hcall : ∀ answer e, ¬ r.Fails answer e)
    (h : ∀ answer, ok answer (⟨r, answer⟩ :: past)) :
  Answerable (Procedure.ask r) ok past
  := by
  constructor
  · intro answer e hfails
    cases hcall answer e hfails
  · intro answer a ha
    cases ha
    apply h

/-! ### The stages -/

variable {ref : ResourceRef} {ns : String} {ready : Secret → List Exchange → Prop}

/-- A call that hands its failure on. -/
theorem answers_of_hands_on {r : Request} {next : r.Answer → Program Request.Answer (Except Stop α)}
    (hhandles : ∀ e, handles past e r = false)
    (hends : ∀ answer e, r.Fails answer e → next answer = .done (.error (.error e))) :
  Answers past r next
  := by
  intro answer e hfails
  constructor
  · intro _
    apply hends answer e hfails
  · intro hhandled
    rw [hhandles e] at hhandled
    cases hhandled

theorem handles_create_secret (htried : hasTried past = false) (s : Secret) :
  handles past e (.create .secret ns s) = e.isAlreadyExists
  := by
  simp only [handles, htried, Bool.not_false, Bool.true_and]

/-- What a program makes of a new secret that was looked for just now. -/
theorem answers_create_found {s : Secret} {next : Except Error Secret → Program Request.Answer (Except Stop α)}
    (reread : Except Error Secret → Program Request.Answer (Except Stop α))
    (htried : hasTried past = false) (hlooked : hasJustLookedUp past = true)
    (hfails : ∀ e, e.isAlreadyExists = false → next (.error e) = .done (.error (.error e)))
    (hexists : ∀ e, e.isAlreadyExists = true → next (.error e) = .ask (.get .secret ⟨ns, s.name⟩) reread)
    (hlive : ∀ live, reread (.ok live) = next (.ok live)) :
  Answers past (.create .secret ns s) next
  := by
  rintro _ e ⟨⟩
  rw [handles_create_secret htried]
  refine ⟨hfails e, fun hhandles => ⟨reread, hexists e hhandles, ?_⟩⟩
  intro live
  rw [if_pos hlooked]
  apply hlive

/-- What a program makes of a new secret that has values. -/
theorem answers_create_filled {s : Secret} {next : Except Error Secret → Program Request.Answer (Except Stop α)}
    (reread : Except Error Secret → Program Request.Answer (Except Stop α))
    (replaced : Secret → Except Error Secret → Program Request.Answer (Except Stop α))
    (htried : hasTried past = false) (hlooked : hasJustLookedUp past = false)
    (hfails : ∀ e, e.isAlreadyExists = false → next (.error e) = .done (.error (.error e)))
    (hexists : ∀ e, e.isAlreadyExists = true → next (.error e) = .ask (.get .secret ⟨ns, s.name⟩) reread)
    (hlive : ∀ live, reread (.ok live) = .ask (.update .secret ns (s.over live)) (replaced live))
    (hstored : ∀ live stored, replaced live (.ok stored) = next (.ok stored)) :
  Answers past (.create .secret ns s) next
  := by
  rintro _ e ⟨⟩
  rw [handles_create_secret htried]
  refine ⟨hfails e, fun hhandles => ⟨reread, hexists e hhandles, ?_⟩⟩
  intro live
  rw [if_neg (by simp [hlooked])]
  exact ⟨replaced live, hlive live, hstored live⟩

theorem answerable_get_secret (h : ∀ answer live, ready live (⟨.get .secret ref, answer⟩ :: past)) :
  Answerable (Procedure.get .secret ref) ready past
  := by
  apply answerable_asking
  · apply answers_of_hands_on (fun _ => rfl)
    rintro _ e ⟨⟩
    rfl
  · intro answer
    apply answerable_ofResult
    intro live _
    apply h

theorem answerable_update_secret {s : Secret}
    (h : ∀ answer stored, ready stored (⟨.update .secret ns s, answer⟩ :: past)) :
  Answerable (Procedure.update .secret ns s) ready past
  := by
  apply answerable_asking
  · apply answers_of_hands_on (fun _ => rfl)
    rintro _ e ⟨⟩
    rfl
  · intro answer
    apply answerable_ofResult
    intro stored _
    apply h

/-- A secret that another writer has created is as good as a new one. -/
theorem answerable_ensureSecret :
  Answerable (ensureSecret ref) (fun _ past' => hasTried past' = false) past
  := by
  apply Answerable.bind
  apply answerable_ask
  · rintro _ _ ⟨⟩
  · intro copy
    cases copy with
    | some secret => exact answerable_pure rfl
    | none =>
      apply answerable_asking
      · refine answers_create_found (fun answer => (Procedure.ofResult answer).run) rfl rfl ?_ ?_ ?_
        · intro e hexists
          simp only [hexists]
          rfl
        · intro e hexists
          simp only [hexists]
          rfl
        · intro live
          rfl
      · intro answer
        cases answer with
        | ok secret => exact answerable_pure rfl
        | error e =>
          simp only
          split
          · exact answerable_get_secret (fun _ _ => rfl)
          · apply answerable_throw

theorem answerable_ensurePolicy {secret : Secret} {policy : Policy} (htried : hasTried past = false) :
  Answerable (ensurePolicy secret ref policy) (fun _ past' => hasTried past' = false) past
  := by
  apply Answerable.bind
  apply answerable_ask
  · rintro _ _ ⟨⟩
  · intro now
    split
    · exact answerable_pure htried
    · exact answerable_update_secret (fun _ _ => htried)

/-- A secret that another writer has created is replaced. -/
theorem answerable_store {secret : Secret} (htried : hasTried past = false)
    (hlooked : hasJustLookedUp past = false) (h : ∀ stored past', ready stored past') :
  Answerable (Procedure.store ns secret) ready past
  := by
  unfold Procedure.store
  split
  · apply answerable_update_secret (fun _ _ => h _ _)
  · apply answerable_asking
    · refine answers_create_filled
        (fun answer => (do
          let live ← Procedure.ofResult answer
          Procedure.update .secret ns (secret.over live)).run)
        (fun _ answer => (Procedure.ofResult answer).run) htried hlooked ?_ ?_ ?_ ?_
      · intro e hexists
        simp only [hexists]
        rfl
      · intro e hexists
        simp only [hexists]
        rfl
      · intro live
        rfl
      · intro live stored
        rfl
    · intro answer
      cases answer with
      | ok stored => apply answerable_pure (h _ _)
      | error e =>
        simp only
        split
        · apply Answerable.bind
          apply answerable_get_secret
          intro answer live
          apply answerable_update_secret (fun _ _ => h _ _)
        · apply answerable_throw

end Manager

/-! ### The requests of a bundle stage -/

namespace Bundle

/-- What a bundle stage reports of its write, and what it comes to. -/
def reported (ca : Authority) (certs : List TrustedCertificate) (stored : ConfigMap) :
    Procedure (List TrustedCertificate) := do
  Procedure.publish stored "CABundleUpdated" "Updated"
    ("CA bundle now trusts `" ++ ca.info.commonName ++ "` and " ++ Decimal.text (certs.length - 1)
      ++ " older certificate(s)")
  return certs

theorem publish_none (ref : ResourceRef) (ca : Authority) :
  publish ref ca none = (do
    let _ ← Procedure.clock
    let stored ← Procedure.create .configMap ref.ns (rewritten ref none [ca.trusted])
    reported ca [ca.trusted] stored)
  := by
  unfold publish
  simp only [listed_eq]
  rfl

theorem publish_some (ref : ResourceRef) (ca : Authority) (m : ConfigMap) :
  publish ref ca (some m) = (do
    let now ← Procedure.clock
    let certs := merge now ca.trusted (listed (some m))
    if encodeBundle certs = (m.text? EntryKey.bundle).getD "" then
      return certs
    else
      let stored ← Procedure.update .configMap ref.ns (rewritten ref (some m) certs)
      reported ca certs stored)
  := by
  unfold publish
  simp only [listed_eq, Option.isSome_some, true_and]
  rfl

theorem attempt_none (ref : ResourceRef) (ca : Authority) :
  tryCatch (publish ref ca none) (retry ref ca) = (do
    let _ ← Procedure.clock
    match ← Procedure.ask (.create .configMap ref.ns (rewritten ref none [ca.trusted])) with
    | .ok stored => reported ca [ca.trusted] stored
    | .error e => retry ref ca (.error e))
  := by
  rw [publish_none]
  apply congrArg (Program.ask Request.clock)
  funext now
  apply congrArg (Program.ask (Request.create .configMap ref.ns (rewritten ref none [ca.trusted])))
  funext answer
  cases answer <;> rfl

theorem attempt_some (ref : ResourceRef) (ca : Authority) (m : ConfigMap) :
  tryCatch (publish ref ca (some m)) (retry ref ca) = (do
    let now ← Procedure.clock
    let certs := merge now ca.trusted (listed (some m))
    if encodeBundle certs = (m.text? EntryKey.bundle).getD "" then
      return certs
    else
      match ← Procedure.ask (.update .configMap ref.ns (rewritten ref (some m) certs)) with
      | .ok stored => reported ca certs stored
      | .error e => retry ref ca (.error e))
  := by
  rw [publish_some]
  apply congrArg (Program.ask Request.clock)
  funext now
  simp only [Program.done_bind, Function.comp_apply, ExceptT.bindCont]
  split
  · rfl
  · apply congrArg (Program.ask (Request.update .configMap ref.ns _))
    funext answer
    cases answer <;> rfl

theorem text?_rewritten (ref : ResourceRef) (copy : Option ConfigMap) (certs : List TrustedCertificate) :
  (rewritten ref copy certs).text? EntryKey.bundle = some (encodeBundle certs)
  := by
  apply (ConfigMap.text?_withText _ _ _ _).trans
  apply if_pos rfl

end Bundle

namespace Manager

variable {past : List Exchange} {ref : ResourceRef} {ns : String} {ca : Authority}
variable {certs : List TrustedCertificate} {trusts : List TrustedCertificate → List Exchange → Prop}
variable {next : Except Error ConfigMap → Program Request.Answer (Except Stop α)} {o : ConfigMap}

/-- What a program makes of the second write of a bundle. -/
theorem answers_write_again (htried : hasTried past = true)
    (hfails : ∀ e, next (.error e) = .done (.error (.error e))) :
  Answers past (.create .configMap ns o) next ∧ Answers past (.update .configMap ns o) next
  := by
  constructor
  all_goals
    apply answers_of_hands_on
    · intro e
      simp only [handles, htried, Bool.not_true, Bool.false_and]
    · rintro _ e ⟨⟩
      apply hfails

/-- What a program makes of the first write of a bundle. -/
theorem answers_write_first {next : Except Error ConfigMap → Program Request.Answer (Except Stop _)}
    (hlooked : lookedUp? past = some (.configMap, ref)) (htried : hasTried past = false)
    (htext : o.text? EntryKey.bundle = some (encodeBundle (ca.trusted :: certs)))
    (hstored : ∀ stored, next (.ok stored) = (Bundle.reported ca (ca.trusted :: certs) stored).run)
    (hfails : ∀ e, next (.error e) = (Bundle.retry ref ca (.error e)).run) :
  Answers past (.create .configMap ns o) next ∧ Answers past (.update .configMap ns o) next
  := by
  have hends : ∀ e : Error, (e.isConflict || e.isAlreadyExists) = false →
      next (.error e) = .done (.error (.error e)) := by
    intro e hlate
    rw [hfails, Bundle.retry, hlate]
    rfl
  have hresumes : ∀ e : Error, (e.isConflict || e.isAlreadyExists) = true →
      Republishes past e o next := by
    intro e hlate
    refine ⟨ref, ca, certs, pure, hlooked, htext, ?_, ?_⟩
    · intro stored
      refine ⟨_, (hstored stored).trans rfl⟩
    · rw [hfails, Bundle.retry, hlate]
      simp only [bind_pure]
      rfl
  constructor
  all_goals
    rintro _ e ⟨⟩
    simp only [handles, htried, Bool.not_false, Bool.true_and]
    exact ⟨hends e, hresumes e⟩

/-- The publication that is left when the write has gone through. -/
theorem answerable_reported (stored : ConfigMap) (h : ∀ certs past', trusts certs past') :
  Answerable (Bundle.reported ca certs stored) trusts past
  := by
  apply Answerable.bind
  apply answerable_ask
  · rintro _ _ ⟨⟩
  · intro _
    apply answerable_pure (h _ _)

/-- The second attempt to publish hands every failure on. -/
theorem answerable_publish (copy : Option ConfigMap) (htried : hasTried past = true)
    (h : ∀ certs past', trusts certs past') :
  Answerable (Bundle.publish ref ca copy) trusts past
  := by
  have hwrite : ∀ (x : Except Error ConfigMap) certs past',
      Answerable (Procedure.ofResult x >>= Bundle.reported ca certs) trusts past' := by
    intro x certs past'
    apply Answerable.bind
    apply answerable_ofResult
    intro stored _
    apply answerable_reported stored h
  cases copy with
  | none =>
    rw [Bundle.publish_none]
    apply Answerable.bind
    apply answerable_ask
    · rintro _ _ ⟨⟩
    · intro now
      rw [Procedure.create, bind_assoc]
      apply answerable_asking
      · exact (answers_write_again htried (fun e => rfl)).1
      · intro answer
        apply hwrite
  | some m =>
    rw [Bundle.publish_some]
    apply Answerable.bind
    apply answerable_ask
    · rintro _ _ ⟨⟩
    · intro now
      dsimp only
      split
      · apply answerable_pure (h _ _)
      · rw [Procedure.update, bind_assoc]
        apply answerable_asking
        · exact (answers_write_again htried (fun e => rfl)).2
        · intro answer
          apply hwrite

/-- A bundle that is not there when it is looked for is created. -/
theorem answerable_found {f : Option ConfigMap → Procedure α} {ok : α → List Exchange → Prop}
    {created : Instant → Except Error ConfigMap → Program Request.Answer (Except Stop α)}
    (hcreates : (f none).run = .ask .clock (fun now =>
      .ask (.create .configMap ref.ns (Bundle.rewritten ref none [ca.trusted])) (created now)))
    (hf : ∀ live answer, Answerable (f live) ok (⟨.get .configMap ref, answer⟩ :: past)) :
  Answerable (Procedure.find .configMap ref >>= f) ok past
  := by
  rw [Procedure.find, bind_assoc]
  apply answerable_asking
  · rintro _ e ⟨⟩
    constructor
    · intro hhandles
      simp only [handles] at hhandles
      simp only [hhandles]
      rfl
    · intro hhandles
      simp only [handles] at hhandles
      refine ⟨ca, created, ?_⟩
      rw [← hcreates]
      simp only [hhandles]
      rfl
  · intro answer
    apply Answerable.bind
    cases answer with
    | ok live =>
      apply answerable_pure
      apply hf
    | error e =>
      dsimp only
      split
      · apply answerable_pure
        apply hf
      · apply answerable_throw

/-- The second attempt to publish, if there is one. -/
theorem answerable_retry (stop : Stop) (htried : hasTried past = true)
    (h : ∀ certs past', trusts certs past') :
  Answerable (Bundle.retry ref ca stop) trusts past
  := by
  cases stop with
  | overflow => apply answerable_throw
  | error e =>
    rw [Bundle.retry]
    split
    · apply answerable_found (congrArg ExceptT.run (Bundle.publish_none ref ca))
      intro live answer
      exact answerable_publish live (show hasTried (_ :: past) = true from htried) h
    · apply answerable_throw

/-- The first attempt to publish is followed by a second one if its write came too late. -/
theorem answerable_attempt (copy : Option ConfigMap)
    (hlooked : lookedUp? past = some (.configMap, ref)) (htried : hasTried past = false)
    (h : ∀ certs past', trusts certs past') :
  Answerable (tryCatch (Bundle.publish ref ca copy) (Bundle.retry ref ca)) trusts past
  := by
  cases copy with
  | none =>
    rw [Bundle.attempt_none]
    apply Answerable.bind
    apply answerable_ask
    · rintro _ _ ⟨⟩
    · intro now
      apply answerable_asking
      · exact (answers_write_first hlooked htried (Bundle.text?_rewritten _ _ _) (fun _ => rfl)
          (fun _ => rfl)).1
      · intro answer
        cases answer with
        | ok stored => apply answerable_reported stored h
        | error e => exact answerable_retry _ rfl h
  | some m =>
    rw [Bundle.attempt_some]
    apply Answerable.bind
    apply answerable_ask
    · rintro _ _ ⟨⟩
    · intro now
      dsimp only
      split
      · apply answerable_pure (h _ _)
      · rw [Bundle.merge_eq]
        apply answerable_asking
        · exact (answers_write_first hlooked htried (Bundle.text?_rewritten _ _ _) (fun _ => rfl)
            (fun _ => rfl)).2
        · intro answer
          cases answer with
          | ok stored => apply answerable_reported stored h
          | error e => exact answerable_retry _ rfl h

/-- The bundle stage begins with the look-up of the bundle. -/
theorem answerable_ensureBundle (h : ∀ certs past', trusts certs past') :
  Answerable (Bundle.ensure ref ca) trusts past
  := by
  rw [Bundle.ensure_eq, Procedure.current, bind_assoc]
  apply Answerable.bind
  apply answerable_ask
  · rintro _ _ ⟨⟩
  · intro copy
    cases copy with
    | some m =>
      apply Answerable.bind
      apply answerable_pure
      exact answerable_attempt _ rfl rfl h
    | none =>
      apply answerable_found
      · rw [Bundle.attempt_none]
        rfl
      · intro live answer
        exact answerable_attempt live rfl rfl h

/-! ### Passes -/

/-- A new key leaves no doubt about what is being stored. -/
theorem answerable_rotateSigner {ok : Authority → List Exchange → Prop} (r : SignerRequest)
    (secret : Secret) (now : Instant) (reason : SignerRequest.Reason) (htried : hasTried past = false)
    (h : ∀ ca past', ok ca past') :
  Answerable (r.rotate secret now reason) ok past
  := by
  apply Answerable.bind
  apply answerable_ask
  · rintro _ _ ⟨⟩
  · intro started
    apply Answerable.bind
    apply answerable_ofComputation
    intro validity _
    apply Answerable.bind
    apply answerable_ask
    · rintro _ _ ⟨⟩
    · intro key
      apply Answerable.bind
      apply answerable_ofResult
      intro ca _
      apply Answerable.bind
      have htried' : hasTried (⟨.newKey, key⟩ :: ⟨.clock, started⟩ :: past) = false := htried
      apply answerable_store htried' rfl
      intro stored past'
      apply Answerable.bind
      apply answerable_ask
      · rintro _ _ ⟨⟩
      · intro _
        apply answerable_pure (h _ _)

theorem answerable_ensureSigner {ok : Authority → List Exchange → Prop} (ref : ResourceRef)
    (policy : Policy) (known : Secret) (htried : hasTried past = false) (h : ∀ ca past', ok ca past') :
  Answerable (SignerRequest.ensure ⟨ref, policy, some known⟩) ok past
  := by
  apply Answerable.bind
  apply answerable_pure
  apply Answerable.bind
  apply answerable_ask
  · rintro _ _ ⟨⟩
  · intro now
    apply Answerable.bind
    apply answerable_ofComputation
    intro result _
    cases result with
    | ok ca => apply answerable_pure (h _ _)
    | error reason => exact answerable_rotateSigner _ _ _ _ htried h

theorem answerable_rotateLeaf {ok : Unit → List Exchange → Prop} (r : LeafStage) (secret : Secret)
    (bundle : List TrustedCertificate) (reason : LeafStage.Reason) (htried : hasTried past = false)
    (h : ∀ past', ok () past') :
  Answerable (r.rotate secret ca bundle reason) ok past
  := by
  rw [LeafStage.rotate, LeafStage.issue]
  simp only [bind_assoc]
  apply Answerable.bind
  apply answerable_ask
  · rintro _ _ ⟨⟩
  · intro now
    apply Answerable.bind
    apply answerable_ofComputation
    intro _ _
    apply Answerable.bind
    apply answerable_ask
    · rintro _ _ ⟨⟩
    · intro key
      apply Answerable.bind
      apply answerable_ofComputation
      intro issued _
      apply Answerable.bind
      have htried' : hasTried (⟨.newKey, key⟩ :: ⟨.clock, now⟩ :: past) = false := htried
      apply answerable_store htried' rfl
      intro stored past'
      apply answerable_ask
      · rintro _ _ ⟨⟩
      · intro _
        apply h

theorem answerable_ensureLeaf {ok : Unit → List Exchange → Prop} (leaf : Leaf)
    (bundle : List TrustedCertificate) (known : Secret) (htried : hasTried past = false)
    (h : ∀ past', ok () past') :
  Answerable (LeafStage.ensure ⟨leaf.secret, leaf.policy, leafRequest leaf, some known⟩ ca bundle) ok past
  := by
  apply Answerable.bind
  apply answerable_pure
  apply Answerable.bind
  apply answerable_ask
  · rintro _ _ ⟨⟩
  · intro now
    apply Answerable.bind
    apply answerable_ofComputation
    intro reason _
    cases reason with
    | none => apply answerable_pure (h _)
    | some reason => exact answerable_rotateLeaf _ _ _ _ htried h

theorem answerable_work {ok : Unit → List Exchange → Prop} (p : Plan) (h : ∀ past', ok () past') :
  Answerable (work p) ok past
  := by
  have hprepare : ∀ (ref : ResourceRef) (policy : Policy) past', Answerable (do
      let secret ← ensureSecret ref
      ensurePolicy secret ref policy) (fun _ past' => hasTried past' = false) past' := by
    intro ref policy past'
    apply Answerable.bind
    apply answerable_ensureSecret.mono
    intro secret past'' htried
    apply answerable_ensurePolicy htried
  apply Answerable.bind
  apply (hprepare _ _ _).mono
  intro secret past₁ htried
  apply Answerable.bind
  apply answerable_ensureSigner _ _ _ htried
  intro ca past₂
  split
  · apply answerable_pure (h _)
  · apply Answerable.bind
    apply answerable_ensureBundle
    intro certs past₃
    apply answerable_pure (h _)
  · apply Answerable.bind
    apply answerable_ensureBundle
    intro certs past₃
    apply Answerable.bind
    apply (hprepare _ _ _).mono
    intro secret past₄ htried
    apply answerable_ensureLeaf _ _ _ htried h

/-- A pass answers for every failure. -/
theorem answerable_sync (watched : NameSet) (definitions : List Definition) :
  Answerable (sync watched definitions) (fun _ _ => True) past
  := by
  have hforM : ∀ (plans : List Plan) past, Answerable (plans.forM work) (fun _ _ => True) past := by
    intro plans
    induction plans with
    | nil =>
      intro past
      show Answerable (pure ()) (fun _ _ => True) past
      apply answerable_pure
      trivial
    | cons p plans ih =>
      intro past
      apply Answerable.bind
      apply answerable_work
      intro past'
      apply ih
  cases hplans : preflight watched definitions with
  | ok plans =>
    rw [sync_eq_work hplans]
    apply hforM
  | error e =>
    rw [sync_eq, hplans]
    apply answerable_throw

/-- In a world a pass ends where a failure is not handled, in the state in which the failed call left
the world. -/
theorem run_sync_of_failure {watched : NameSet} {definitions : List Definition} {w w' : World}
    {r : Request} {next : r.Answer → Program Request.Answer (Except Stop Unit)} {e : Error}
    (hcomes : Program.Comes (Program.handled World.handle) (sync watched definitions).run w past
      (.ask r next) w')
    (hfails : r.Fails (World.handle r w').1 e) (hhandles : handles past e r = false) :
  World.run (sync watched definitions) w = (.error (.error e), (World.handle r w').2)
  := by
  obtain ⟨hends, -⟩ := hcomes.throughout (answerable_sync watched definitions) _ e hfails
  rw [World.run, hcomes.run, Program.run, hends hhandles]
  rfl

/-- If a call of a pass fails, then either the pass is over and has come to the error of the call, which
is its last exchange and leaves the surroundings as the pass leaves them, or the failure is one that is
handled, and the pass resumes. -/
theorem sync_stops_at_failure {σ : Type} {step : Surroundings Request.Answer σ} {s s' s'' : σ}
    {watched : NameSet} {definitions : List Definition} {r : Request}
    {next : r.Answer → Program Request.Answer (Except Stop Unit)} {answer : r.Answer} {e : Error}
    (hcomes : Program.Comes step (sync watched definitions).run s past (.ask r next) s')
    (hstep : step s' r answer s'') (hfails : r.Fails answer e) :
  (handles past e r = false → next answer = .done (.error (.error e))
    ∧ Program.Comes step (sync watched definitions).run s (⟨r, answer⟩ :: past)
      (.done (.error (.error e))) s'')
  ∧ (handles past e r = true → Resumes past e r next)
  := by
  obtain ⟨hends, hresumes⟩ := hcomes.throughout (answerable_sync watched definitions) answer e hfails
  constructor
  · intro hhandles
    have hnext := hends hhandles
    refine ⟨hnext, ?_⟩
    rw [← hnext]
    apply hcomes.answered hstep
  · apply hresumes

/-- The requests with which a pass begins if no cache shows the signer of its first definition. -/
theorem exists_first_creation {watched : NameSet} {definitions : List Definition} {p : Plan}
    {rest : List Plan} (hplans : preflight watched definitions = .ok (p :: rest)) :
  ∃ next, (sync watched definitions).run = .ask (.cached .secret p.1.signer) next
    ∧ ∃ next', next none = .ask (.create .secret p.1.signer.ns ⟨{ name := p.1.signer.name }, {}⟩) next'
  := by
  rw [sync_eq_work hplans]
  exact ⟨_, rfl, _, rfl⟩

/-- The creation of the first secret is forbidden. -/
theorem sync_stops_at_failure_of_forbidden :
  ∃ (definitions : List Definition) (w w' : World) (next : _ → Program Request.Answer (Except Stop Unit))
    (answer : Except Error Secret) (e : Error),
    let r : Request := .create .secret "pki" ⟨{ name := "ca" }, {}⟩
    Program.Comes (Program.handled World.handle) (sync (NameSet.ofNames ["pki"]) definitions).run w
        [⟨.cached .secret ⟨"pki", "ca"⟩, none⟩] (.ask r next) w
      ∧ Program.handled World.handle w r answer w' ∧ r.Fails answer e
      ∧ Program.Comes (Program.handled World.handle) (sync (NameSet.ofNames ["pki"]) definitions).run w
        [⟨r, answer⟩, ⟨.cached .secret ⟨"pki", "ca"⟩, none⟩] (.done (.error (.error e))) w'
  := by
  let d : Definition := ⟨⟨"pki", "ca"⟩, Definition.sampleSignerPolicy, none, none, none, none, none⟩
  let e : Error := .api ⟨403, "Forbidden", "secrets is forbidden"⟩
  let w : World := {
    store := Store.new ["pki"]
    clock := .ofSeconds 0
    faults := [⟨.call .create .secret, none, 0, some e, none⟩] }
  have hplans : preflight (NameSet.ofNames ["pki"]) [d] = .ok ((d, .signer) :: []) := by
    have hplan : plan (NameSet.ofNames ["pki"]) d = .ok (d, .signer) := by
      apply plan_eq_ok.mpr
      refine ⟨rfl, rfl, ?_⟩
      decide
    simp only [preflight, List.mapM_cons, List.mapM_nil, hplan]
    rfl
  obtain ⟨next, hrun, next', hnext⟩ := exists_first_creation hplans
  have hbegun : Program.Comes (Program.handled World.handle) (sync (NameSet.ofNames ["pki"]) [d]).run w []
      (.ask (.cached .secret d.signer) next) w := by
    rw [← hrun]
    apply Program.Comes.start
  have hnone : Program.handled World.handle w (.cached .secret d.signer) none w := rfl
  have hcomes := hbegun.answered hnone
  rw [hnext] at hcomes
  have hstep : Program.handled World.handle w (.create .secret "pki" ⟨{ name := "ca" }, {}⟩) (.error e)
    (World.handle (.create .secret "pki" ⟨{ name := "ca" }, {}⟩) w).2 := rfl
  obtain ⟨hends, -⟩ := sync_stops_at_failure hcomes hstep .create
  exact ⟨[d], w, _, next', .error e, e, hcomes, hstep, .create, (hends rfl).2⟩

end Manager

end CertKeeper
