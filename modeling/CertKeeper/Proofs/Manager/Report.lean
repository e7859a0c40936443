import CertKeeper.Proofs.Cluster.Minutes
import CertKeeper.Proofs.Manager.FailStop

/-!
# Reports of rotations

A pass publishes an event for each object that it has stored for a rotation, and for no other. What it
stores beyond that is a secret without values, to be filled later, or a secret on which a policy is
recorded (`Readies`). An event follows its object at once, before anything else is asked for, and names
it as the store returned it (`Reports`). So at any time of a pass the events stand for the rotated
objects one by one, but for an object that has just been stored (`Minutes.Accounted`), and none is
missing when the pass is over, whatever it has come to (`Manager.sync_reports_renewals`).
-/

namespace CertKeeper

variable {α : Type} {past : Minutes}

/-- An object was stored for a rotation: a bundle, or a secret after a key pair was made for it. -/
def Written.isRenewal (w : Written) : Bool := decide (w.kind = .configMap) || w.before.newKey?.isSome

/-- A secret is sent as it is, or over the live one if another writer was faster. -/
def Sends (before : Minutes) (secret sent : Secret) : Prop :=
  sent = secret ∨ ∃ live : Secret, ⟨.secret, live⟩ ∈ before.told ∧ sent = secret.over live

/-- An event tells of a rotation that has stored an object, and names it as it was returned. -/
inductive Reports : Written → Event → Prop where
  | signer {copy sent stored : Secret} {before : Minutes} {commonName note : String} {v : Validity}
    {key : KeyPair} {ca : Authority} :
      ⟨.secret, copy⟩ ∈ before.told → before.newKey? = some key →
      Authority.generate commonName v key = .ok ca →
      Sends before (copy.withKeyPair ca.certPem ca.keyPem ca.info) sent →
      Reports ⟨.secret, sent, stored, before⟩
        ⟨.secret, stored.metadata.ns, stored.name, "SignerUpdated", "Rotated", note⟩
  | bundle {ref : ResourceRef} {copy : Option ConfigMap} {stored : ConfigMap} {before : Minutes}
    {certs : List TrustedCertificate} {note : String} :
      (∀ m ∈ copy, ⟨.configMap, m⟩ ∈ before.told ∧ m.text? EntryKey.bundle ≠ some (encodeBundle certs)) →
      Reports ⟨.configMap, Bundle.rewritten ref copy certs, stored, before⟩
        ⟨.configMap, stored.metadata.ns, stored.name, "CABundleUpdated", "Updated", note⟩
  | leaf {r : LeafStage} {copy sent stored : Secret} {before : Minutes} {note : String} {now : Instant}
    {key : KeyPair} {ca : Authority} {trusted : List TrustedCertificate} {issued : IssuedCertificate} :
      ⟨.secret, copy⟩ ∈ before.told → before.newKey? = some key →
      ca.sign r.request now r.policy.lifetime key = .ok issued →
      Sends before (r.filled copy ca trusted issued) sent →
      Reports ⟨.secret, sent, stored, before⟩
        ⟨.secret, stored.metadata.ns, stored.name, "TargetUpdated", "Rotated", note⟩

/-- An object was stored in preparation only: a secret without values, or with a policy recorded. -/
inductive Readies : Written → Prop where
  | bare {name : String} {stored : Secret} {before : Minutes} :
      Readies ⟨.secret, ⟨{ name := name }, {}⟩, stored, before⟩
  | recorded {copy sent stored : Secret} {before : Minutes} {policy : Policy} {now : Instant} :
      ⟨.secret, copy⟩ ∈ before.told → copy.withFingerprint? policy.fingerprint now = some sent →
      Readies ⟨.secret, sent, stored, before⟩

namespace Minutes

variable {exchange : Program.Exchange Request.Answer} {w : Written}

/-- The events stand for the renewals, one by one and in order, and nothing else was stored but in
preparation. -/
structure Reported (past : Minutes) : Prop where
  renewals : List.Forall₂ Reports (past.writes.filter Written.isRenewal) past.events
  others : ∀ w ∈ past.writes, w.isRenewal = false → Readies w

/-- The last thing that happened is a renewal, and all before was reported. -/
inductive Pending : Minutes → Written → Prop where
  | stored {before : Minutes} {exchange : Program.Exchange Request.Answer} {w : Written} :
      before.Reported → written? before exchange = some w → w.isRenewal = true →
      Pending (exchange :: before) w

/-- All was reported, except perhaps for a renewal that has only just been stored. -/
def Accounted (past : Minutes) : Prop := past.Reported ∨ ∃ w, past.Pending w

/-- All was reported, and no key pair waits to be stored. -/
structure AtRest (past : Minutes) : Prop where
  reported : past.Reported
  keys : past.newKey? = none

theorem writes_of_written (h : written? past exchange = some w) :
  writes (exchange :: past) = past.writes ++ [w]
  := congrArg (fun stored => writes past ++ stored.toList) h

theorem reported_nil :
  Reported []
  := ⟨.nil, fun _ h => nomatch h⟩

theorem Idles.reported {past' : Minutes} (h : past.Idles past') (hpast : past.Reported) :
  past'.Reported
  := by
  obtain ⟨hrenewals, hothers⟩ := hpast
  constructor
  · rw [h.writes, h.events]
    apply hrenewals
  · rw [h.writes]
    apply hothers

theorem Idles.atRest {past' : Minutes} (h : past.Idles past') (hpast : past.AtRest) :
  past'.AtRest
  := ⟨h.reported hpast.reported, h.newKey?.trans hpast.keys⟩

/-- A key pair that was made stores and reports nothing. -/
theorem Reported.newKey (h : past.Reported) (key : KeyPair) :
  Reported (⟨.newKey, key⟩ :: past)
  := by
  obtain ⟨hrenewals, hothers⟩ := h
  have hwrites : writes (⟨.newKey, key⟩ :: past) = past.writes := List.append_nil _
  constructor
  · rw [hwrites]
    apply hrenewals
  · rw [hwrites]
    apply hothers

/-- What is stored in preparation needs no event. -/
theorem AtRest.readied (h : past.AtRest) (hw : written? past exchange = some w) (hready : Readies w) :
  AtRest (exchange :: past)
  := by
  obtain ⟨⟨hrenewals, hothers⟩, hkeys⟩ := h
  obtain ⟨hevent, hnone, hbefore⟩ := of_written hw
  have hrenewal : w.isRenewal = false := by
    have hkind : w.kind = .secret := by cases hready <;> rfl
    rw [Written.isRenewal, hkind, hbefore, hkeys]
    rfl
  refine ⟨⟨?_, ?_⟩, hnone⟩
  · rw [writes_of_written hw, List.filter_append, events_cons, hevent,
      List.filter_cons_of_neg (by simp [hrenewal])]
    simpa using hrenewals
  · intro w' hw' hnot
    rw [writes_of_written hw] at hw'
    rcases List.mem_append.mp hw' with hold | hnew
    · apply hothers w' hold hnot
    · obtain rfl := List.mem_singleton.mp hnew
      apply hready

/-- Once the event of a pending renewal is published, all is reported. -/
theorem Pending.published (h : past.Pending w) {event : Event} (hreports : Reports w event) :
  AtRest (⟨.publish event, ()⟩ :: past)
  := by
  obtain ⟨hbefore, hw, hrenewal⟩ := h
  rename_i before exchange
  obtain ⟨hevent, hnone, -⟩ := of_written hw
  have hwrites : writes (⟨.publish event, ()⟩ :: exchange :: before) = before.writes ++ [w] := by
    rw [← writes_of_written hw]
    apply List.append_nil
  have hevents : events (⟨.publish event, ()⟩ :: exchange :: before) = before.events ++ [event] := by
    rw [events_cons, events_cons, hevent]
    simp [event?]
  refine ⟨⟨?_, ?_⟩, hnone⟩
  · rw [hwrites, hevents, List.filter_append, List.filter_cons_of_pos hrenewal]
    apply List.rel_append hbefore.renewals
    exact .cons hreports .nil
  · intro w' hw' hnot
    rw [hwrites] at hw'
    rcases List.mem_append.mp hw' with hold | hnew
    · apply hbefore.others w' hold hnot
    · obtain rfl := List.mem_singleton.mp hnew
      rw [hrenewal] at hnot
      cases hnot

end Minutes

/-! ### Procedures that report what they renew -/

namespace Procedure

variable {k : Kind} {ref : ResourceRef} {ns : String}

/-- However it is answered, the procedure reports every renewal at once, and has none left to report
when it ends or stops. -/
abbrev Reporting (p : Procedure α) (ok : α → Minutes → Prop) (past : Minutes) : Prop :=
  p.Safe Program.minutes Minutes.Accounted ok (fun _ past' => Minutes.Reported past') past

/-- A request that leaves the minutes idle. -/
theorem safe_idle {r : Request} {ok : r.Answer → Minutes → Prop} {stop : Stop → Minutes → Prop}
    (h : past.Reported) (hidle : ∀ answer, past.Idles (⟨r, answer⟩ :: past))
    (hok : ∀ answer, ok answer (⟨r, answer⟩ :: past)) :
  (ask r).Safe Program.minutes Minutes.Accounted ok stop past
  := by
  apply safe_ask
  rintro answer _ rfl
  exact ⟨.inl ((hidle answer).reported h), hok answer⟩

theorem safe_clock_idle {ok : Instant → Minutes → Prop} {stop : Stop → Minutes → Prop}
    (h : past.Reported) (hok : ∀ now past', past.Idles past' → ok now past') :
  clock.Safe Program.minutes Minutes.Accounted ok stop past
  := by
  apply safe_idle h Minutes.idles_clock
  intro now
  apply hok now _ (Minutes.idles_clock now)

theorem reporting_get {ok : Object k → Minutes → Prop} (h : past.Reported)
    (hok : ∀ o past', past.Idles past' → ⟨k, o⟩ ∈ past'.told → ok o past') :
  Reporting (get k ref) ok past
  := by
  apply safe_bind
  apply safe_idle h Minutes.idles_get
  intro answer
  have hidle := @Minutes.idles_get past k ref answer
  cases answer with
  | ok o => exact safe_pure (hok o _ hidle List.mem_cons_self)
  | error e => exact safe_fail (hidle.reported h)

/-- A copy is something that the procedure was told of, or nothing. -/
def IsTold (copy : Option (Object k)) (past : Minutes) : Prop := ∀ o ∈ copy, ⟨k, o⟩ ∈ past.told

theorem isTold_none :
  IsTold (none : Option (Object k)) past
  := fun _ h => nomatch h

theorem isTold_some {o : Object k} (h : ⟨k, o⟩ ∈ past.told) :
  IsTold (some o) past
  := by
  rintro _ ⟨⟩
  apply h

theorem IsTold.of_idles {copy : Option (Object k)} {past' : Minutes} (h : IsTold copy past)
    (hidle : past.Idles past') :
  IsTold copy past'
  := fun o ho => hidle.told _ (h o ho)

theorem reporting_find {ok : Option (Object k) → Minutes → Prop} (h : past.Reported)
    (hok : ∀ copy past', past.Idles past' → IsTold copy past' → ok copy past') :
  Reporting (find k ref) ok past
  := by
  apply safe_bind
  apply safe_idle h Minutes.idles_get
  intro answer
  have hidle := @Minutes.idles_get past k ref answer
  cases answer with
  | ok o => exact safe_pure (hok _ _ hidle (isTold_some List.mem_cons_self))
  | error e =>
    simp only
    split
    · exact safe_pure (hok _ _ hidle isTold_none)
    · exact safe_fail (hidle.reported h)

theorem reporting_current {known : Option (Object k)} {ok : Option (Object k) → Minutes → Prop}
    (h : past.Reported) (hknown : IsTold known past)
    (hok : ∀ copy past', past.Idles past' → IsTold copy past' → ok copy past') :
  Reporting (current k known ref) ok past
  := by
  cases known with
  | some o => exact safe_pure (hok _ _ (.refl past) hknown)
  | none =>
    apply safe_bind
    apply safe_idle h Minutes.idles_cached
    intro copy
    have hidle := @Minutes.idles_cached past k ref copy
    cases copy with
    | some o => exact safe_pure (hok _ _ hidle (isTold_some List.mem_cons_self))
    | none =>
      apply reporting_find (hidle.reported h)
      intro copy past' hidle'
      apply hok copy past' (hidle.trans hidle')

theorem safe_create_reported {o : Object k} {ok : Object k → Minutes → Prop} {stop : Stop → Minutes → Prop}
    (h : past.Reported)
    (hok : ∀ stored, Minutes.Accounted (⟨.create k ns o, .ok stored⟩ :: past)
      ∧ ok stored (⟨.create k ns o, .ok stored⟩ :: past))
    (hstop : ∀ e past', past.Idles past' → stop e past') :
  (create k ns o).Safe Program.minutes Minutes.Accounted ok stop past
  := by
  apply safe_bind
  apply safe_ask
  rintro answer _ rfl
  cases answer with
  | ok stored =>
    obtain ⟨hkeep, hstored⟩ := hok stored
    exact ⟨hkeep, safe_pure hstored⟩
  | error e =>
    have hidle := @Minutes.idles_create_error past k ns o e
    exact ⟨.inl (hidle.reported h), safe_fail (hstop _ _ hidle)⟩

theorem safe_update_reported {o : Object k} {ok : Object k → Minutes → Prop} {stop : Stop → Minutes → Prop}
    (h : past.Reported)
    (hok : ∀ stored, Minutes.Accounted (⟨.update k ns o, .ok stored⟩ :: past)
      ∧ ok stored (⟨.update k ns o, .ok stored⟩ :: past))
    (hstop : ∀ e past', past.Idles past' → stop e past') :
  (update k ns o).Safe Program.minutes Minutes.Accounted ok stop past
  := by
  apply safe_bind
  apply safe_ask
  rintro answer _ rfl
  cases answer with
  | ok stored =>
    obtain ⟨hkeep, hstored⟩ := hok stored
    exact ⟨hkeep, safe_pure hstored⟩
  | error e =>
    have hidle := @Minutes.idles_update_error past k ns o e
    exact ⟨.inl (hidle.reported h), safe_fail (hstop _ _ hidle)⟩

/-- A secret with a new key pair is stored, and then its event is pending. -/
theorem reporting_store {secret : Secret} {key : KeyPair} {ok : Secret → Minutes → Prop}
    (h : past.Reported) (hkey : past.newKey? = some key)
    (hok : ∀ stored sent before past', past.Idles before → Sends before secret sent →
      Minutes.Pending past' ⟨.secret, sent, stored, before⟩ → ok stored past') :
  Reporting (store ns secret) ok past
  := by
  -- The write may come after others that were refused.
  have hwrite : ∀ {exchange : Program.Exchange Request.Answer} {before : Minutes} {sent stored : Secret},
      past.Idles before → Minutes.written? before exchange = some ⟨.secret, sent, stored, before⟩ →
      Minutes.Pending (exchange :: before) ⟨.secret, sent, stored, before⟩ := by
    intro exchange before sent stored hidle hw
    refine .stored (hidle.reported h) hw ?_
    rw [Written.isRenewal, hidle.newKey?, hkey]
    rfl
  unfold store
  split
  · apply safe_update_reported h
    · intro stored
      have hw : Minutes.written? past ⟨.update .secret ns secret, .ok stored⟩ = _ := rfl
      have hpending := hwrite (.refl past) hw
      exact ⟨.inr ⟨_, hpending⟩, hok _ _ _ _ (.refl past) (.inl rfl) hpending⟩
    · intro _ past' hidle
      apply hidle.reported h
  · apply safe_bind
    apply safe_ask
    rintro answer _ rfl
    cases answer with
    | ok stored =>
      have hw : Minutes.written? past ⟨.create .secret ns secret, .ok stored⟩ = _ := rfl
      have hpending := hwrite (.refl past) hw
      exact ⟨.inr ⟨_, hpending⟩, safe_pure (hok _ _ _ _ (.refl past) (.inl rfl) hpending)⟩
    | error e =>
      have hidle := @Minutes.idles_create_error past .secret ns secret e
      refine ⟨.inl (hidle.reported h), ?_⟩
      simp only
      split
      · apply safe_bind
        apply reporting_get (hidle.reported h)
        intro live past' hidle' hlive
        have hsince := hidle.trans hidle'
        have hreported := hsince.reported h
        apply safe_update_reported hreported
        · intro stored
          have hw : Minutes.written? past' ⟨.update .secret ns (secret.over live), .ok stored⟩ = _ := rfl
          have hpending := hwrite hsince hw
          exact ⟨.inr ⟨_, hpending⟩, hok _ _ _ _ hsince (.inr ⟨live, hlive, rfl⟩) hpending⟩
        · intro _ past'' hidle''
          apply hidle''.reported hreported
      · exact safe_fail (hidle.reported h)

/-- The event of a pending renewal is published. -/
theorem safe_publish_pending {w : Written} {o : Object k} {reason action note : String}
    {ok : Unit → Minutes → Prop} {stop : Stop → Minutes → Prop} (h : past.Pending w)
    (hreports : Reports w ⟨k, o.metadata.ns, o.name, reason, action, note⟩)
    (hok : ∀ past', past'.AtRest → ok () past') :
  (publish o reason action note).Safe Program.minutes Minutes.Accounted ok stop past
  := by
  apply safe_ask
  rintro ⟨⟩ _ rfl
  have hrest := h.published hreports
  exact ⟨.inl hrest.reported, hok _ hrest⟩

end Procedure

/-! ### The stages of a pass -/

open Procedure

theorem SignerRequest.reporting_ensure {r : SignerRequest} {secret : Secret}
    (hknown : r.known = some secret) (h : past.AtRest) (htold : ⟨.secret, secret⟩ ∈ past.told) :
  Reporting r.ensure (fun _ past' => past'.AtRest) past
  := by
  rw [ensure_eq hknown]
  apply safe_bind
  apply safe_clock_idle h.reported
  intro now past₁ hidle₁
  apply safe_bind
  apply safe_ofComputation
  · intro result _
    cases result with
    | ok ca => exact safe_pure (hidle₁.atRest h)
    | error reason =>
      apply safe_bind
      apply safe_clock_idle (hidle₁.reported h.reported)
      intro start past₂ hidle₂
      have hidle := hidle₁.trans hidle₂
      have hreported := hidle.reported h.reported
      apply safe_bind
      apply safe_ofComputation
      · intro validity _
        apply safe_bind
        apply safe_ask
        rintro key _ rfl
        have hmade := hreported.newKey key
        refine ⟨.inl hmade, ?_⟩
        apply safe_bind
        apply safe_ofResult
        · intro ca hca
          apply safe_bind
          apply reporting_store hmade rfl
          intro stored sent before past' hsince hsends hpending
          have hcopy := hsince.told _ (Minutes.mem_told_cons (hidle.told _ htold) _)
          apply safe_bind
          apply safe_publish_pending hpending (.signer hcopy hsince.newKey? hca hsends)
          intro past'' hrest
          exact safe_pure hrest
        · exact fun _ _ => hmade
      · exact fun _ _ => hreported
  · exact fun _ _ => hidle₁.reported h.reported

namespace Bundle

variable {ref : ResourceRef} {ca : Authority} {copy : Option ConfigMap}

theorem reporting_publish (h : past.AtRest) (htold : IsTold copy past) :
  (publish ref ca copy).Safe Program.minutes Minutes.Accounted (fun _ past' => Minutes.AtRest past')
    (fun _ past' => Minutes.AtRest past') past
  := by
  apply safe_bind
  apply safe_clock_idle h.reported
  intro now past₁ hidle
  have htold₁ := htold.of_idles hidle
  have hrest := hidle.atRest h
  simp only
  split
  · exact safe_pure hrest
  · rename_i hstale
    -- What is written is new, whether or not there is a copy.
    have hwrote : ∀ {exchange : Program.Exchange Request.Answer} {certs : List TrustedCertificate}
        {stored : ConfigMap} {note : String},
        (∀ m ∈ copy, m.text? EntryKey.bundle ≠ some (encodeBundle certs)) →
        Minutes.written? past₁ exchange = some ⟨.configMap, rewritten ref copy certs, stored, past₁⟩ →
        Minutes.Accounted (exchange :: past₁)
          ∧ Procedure.Safe Program.minutes Minutes.Accounted
            (do
              Procedure.publish stored "CABundleUpdated" "Updated" note
              return certs)
            (fun _ past' => Minutes.AtRest past') (fun _ past' => Minutes.AtRest past')
            (exchange :: past₁) := by
      intro exchange certs stored note hnew hw
      have hpending := Minutes.Pending.stored hrest.reported hw rfl
      refine ⟨.inr ⟨_, hpending⟩, ?_⟩
      apply safe_bind
      apply Procedure.safe_publish_pending hpending
      · exact .bundle (fun m hm => ⟨htold₁ m hm, hnew m hm⟩)
      · intro past' hrest'
        exact safe_pure hrest'
    have hrefused : ∀ (_ : Stop) past', past₁.Idles past' → past'.AtRest :=
      fun _ _ hidle' => hidle'.atRest hrest
    cases copy with
    | some m =>
      apply safe_bind
      apply safe_update_reported hrest.reported _ hrefused
      intro stored
      apply hwrote _ rfl
      rintro _ ⟨⟩ htext
      apply hstale
      exact ⟨rfl, (congrArg (Option.getD · "") htext).symm⟩
    | none =>
      apply safe_bind
      apply safe_create_reported hrest.reported _ hrefused
      intro stored
      apply hwrote _ rfl
      rintro _ ⟨⟩

theorem reporting_ensure (h : past.AtRest) :
  Reporting (ensure ref ca) (fun _ past' => Minutes.AtRest past') past
  := by
  rw [ensure_eq]
  apply safe_bind
  apply reporting_current h.reported isTold_none
  intro copy past₁ hidle htold
  apply safe_tryCatch
  apply safe_weaken (reporting_publish (hidle.atRest h) htold)
  · exact fun _ _ hrest => hrest
  · intro stop past₂ hrest
    cases stop with
    | overflow => exact safe_throw (Minutes.AtRest.reported hrest)
    | error e =>
      simp only [retry]
      split
      · apply safe_bind
        apply reporting_find (Minutes.AtRest.reported hrest)
        intro live past₃ hidle' hlive
        apply safe_weaken (reporting_publish (hidle'.atRest hrest) hlive)
        · exact fun _ _ hrest' => hrest'
        · exact fun _ _ hrest' => Minutes.AtRest.reported hrest'
      · exact safe_throw (Minutes.AtRest.reported hrest)

end Bundle

theorem LeafStage.reporting_ensure {r : LeafStage} {secret : Secret} {ca : Authority}
    {trusted : List TrustedCertificate} (hknown : r.known = some secret) (h : past.AtRest)
    (htold : ⟨.secret, secret⟩ ∈ past.told) :
  Reporting (r.ensure ca trusted) (fun _ past' => Minutes.AtRest past') past
  := by
  rw [ensure_eq hknown]
  apply safe_bind
  apply safe_clock_idle h.reported
  intro now past₁ hidle₁
  apply safe_bind
  apply safe_ofComputation
  · intro reason _
    cases reason with
    | none => exact safe_pure (hidle₁.atRest h)
    | some reason =>
      apply safe_bind
      apply safe_bind
      apply safe_clock_idle (hidle₁.reported h.reported)
      intro start past₂ hidle₂
      have hidle := hidle₁.trans hidle₂
      have hreported := hidle.reported h.reported
      apply safe_bind
      apply safe_ofComputation
      · intro _ _
        apply safe_bind
        apply safe_ask
        rintro key _ rfl
        have hmade := hreported.newKey key
        refine ⟨.inl hmade, ?_⟩
        apply safe_ofComputation
        · intro issued hissued
          apply safe_bind
          apply reporting_store hmade rfl
          intro stored sent before past' hsince hsends hpending
          have hcopy := hsince.told _ (Minutes.mem_told_cons (hidle.told _ htold) _)
          apply safe_publish_pending hpending (.leaf hcopy hsince.newKey? hissued hsends)
          exact fun _ hrest => hrest
        · exact fun _ _ => hmade
      · exact fun _ _ => hreported
  · exact fun _ _ => hidle₁.reported h.reported

namespace Manager

variable {watched : NameSet} {ref : ResourceRef}

theorem reporting_ensureSecret (h : past.AtRest) :
  Reporting (ensureSecret ref)
    (fun secret past' => Minutes.AtRest past' ∧ ⟨.secret, secret⟩ ∈ Minutes.told past') past
  := by
  rw [ensureSecret_eq]
  apply safe_bind
  apply safe_idle h.reported Minutes.idles_cached
  intro copy
  have hrest := (@Minutes.idles_cached past .secret ref copy).atRest h
  cases copy with
  | some secret => exact safe_pure ⟨hrest, List.mem_cons_self⟩
  | none =>
    apply safe_bind
    apply safe_ask
    rintro answer _ rfl
    cases answer with
    | ok stored =>
      have hready := @Minutes.AtRest.readied _ ⟨.create .secret ref.ns _, .ok stored⟩ _ hrest rfl
        (@Readies.bare ref.name _ _)
      exact ⟨.inl hready.reported, safe_pure ⟨hready, List.mem_cons_self⟩⟩
    | error e =>
      have hidle := @Minutes.idles_create_error (⟨.cached .secret ref, none⟩ :: past) .secret ref.ns
        ⟨{ name := ref.name }, {}⟩ e
      have hrest' := hidle.atRest hrest
      refine ⟨.inl hrest'.reported, ?_⟩
      simp only
      split
      · apply reporting_get hrest'.reported
        intro secret past' hidle htold
        exact ⟨hidle.atRest hrest', htold⟩
      · exact safe_fail hrest'.reported

theorem reporting_ensurePolicy {secret : Secret} {policy : Policy} (h : past.AtRest)
    (htold : ⟨.secret, secret⟩ ∈ past.told) :
  Reporting (ensurePolicy secret ref policy)
    (fun secret past' => Minutes.AtRest past' ∧ ⟨.secret, secret⟩ ∈ Minutes.told past') past
  := by
  apply safe_bind
  apply safe_clock_idle h.reported
  intro now past' hidle
  have hrest := hidle.atRest h
  have htold' := hidle.told _ htold
  split
  · exact safe_pure ⟨hrest, htold'⟩
  · rename_i updated hupdated
    apply safe_update_reported hrest.reported
    · intro stored
      have hready := @Minutes.AtRest.readied _ ⟨.update .secret ref.ns updated, .ok stored⟩ _ hrest rfl
        (.recorded htold' hupdated)
      exact ⟨.inl hready.reported, hready, List.mem_cons_self⟩
    · exact fun _ _ hidle' => hidle'.reported hrest.reported

theorem reporting_prepareSecret {policy : Policy} (h : past.AtRest) :
  Reporting (prepareSecret watched ref policy)
    (fun secret past' => Minutes.AtRest past' ∧ ⟨.secret, secret⟩ ∈ Minutes.told past') past
  := by
  apply safe_bind
  apply safe_ofResult
  · intro _ _
    apply safe_bind
    apply safe_mono (reporting_ensureSecret h)
    rintro secret past' ⟨hrest, htold⟩
    apply reporting_ensurePolicy hrest htold
  · exact fun _ _ => h.reported

theorem reporting_planStages (p : Plan) (h : past.AtRest) :
  Reporting (planStages watched p) (fun _ past' => Minutes.AtRest past') past
  := by
  have hsigner : Reporting (signerStage watched p.1) (fun _ past' => Minutes.AtRest past') past := by
    apply safe_bind
    apply safe_mono (reporting_prepareSecret h)
    rintro secret past' ⟨hrest, htold⟩
    apply SignerRequest.reporting_ensure rfl hrest htold
  have hbundle : ∀ {bundle ca} {past' : Minutes}, past'.AtRest →
      Reporting (bundleStage watched bundle ca) (fun _ past'' => Minutes.AtRest past'') past' := by
    intro bundle ca past' hrest
    apply safe_bind
    apply safe_ofResult
    · exact fun _ _ => Bundle.reporting_ensure hrest
    · exact fun _ _ => hrest.reported
  apply safe_bind
  apply safe_mono hsigner
  intro ca past₁ hrest₁
  cases p.2 with
  | signer => exact safe_pure hrest₁
  | signerAndBundle bundle =>
    apply safe_bind
    apply safe_mono (hbundle hrest₁)
    intro _ past₂ hrest₂
    exact safe_pure hrest₂
  | full bundle leaf =>
    apply safe_bind
    apply safe_mono (hbundle hrest₁)
    intro trusted past₂ hrest₂
    apply safe_bind
    apply safe_mono (reporting_prepareSecret hrest₂)
    rintro secret past₃ ⟨hrest₃, htold⟩
    apply LeafStage.reporting_ensure rfl hrest₃ htold

/-- A pass publishes an event for each object that it has stored for a rotation, right after the object
was stored, and for nothing else. That is so whatever it is told, at any time and whatever it comes to,
and a world in which it is carried out records just these events, unless it is silent. -/
theorem sync_reports_renewals (watched : NameSet) (definitions : List Definition) :
  (sync watched definitions).run.Safe Program.minutes Minutes.Accounted
    (fun _ past => Minutes.Reported past) []
  ∧ ∀ w : World, ∃ past : Minutes,
    Program.Comes (Program.handled World.handle) (sync watched definitions).run w past
      (.done ((sync watched definitions).run.run World.handle w).1)
      ((sync watched definitions).run.run World.handle w).2
    ∧ past.Reported
    ∧ ((sync watched definitions).run.run World.handle w).2.events
      = w.events ++ if w.silent then [] else past.events
  := by
  have hreporting : Reporting (sync watched definitions) (fun _ past => Minutes.AtRest past) [] := by
    apply safe_sync_keeps
    · exact fun _ _ => Minutes.reported_nil
    · intro plans _ p _ past h
      apply reporting_planStages p h
    · exact ⟨Minutes.reported_nil, rfl⟩
  have hsafe : (sync watched definitions).run.Safe Program.minutes Minutes.Accounted
      (fun _ past => Minutes.Reported past) [] := by
    apply (safe_iff.mp hreporting).mono
    rintro (stop | ⟨⟩) past hended
    · apply hended
    · apply Minutes.AtRest.reported hended
  constructor
  · apply hsafe
  · intro w
    obtain ⟨past, hcomes, hevents⟩ := World.exists_minutes (sync watched definitions).run w
    exact ⟨past, hcomes, hcomes.safe hsafe, hevents⟩

end Manager

end CertKeeper
