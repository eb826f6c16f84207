import CafePos.Webhooks

/-!
# Reading a stored event again

`interpret` (`payments/provider/stripe-payment.provider.ts`) over any JSON, and over what
`trimEventPayloads` (`retention/retention.service.ts`) leaves of an event. `toOutcome` answers
`none` where the code throws.
-/

namespace CafePos

/-! ## The trimmed payload -/

/-- `payload->'name'`, in a JSON value that is built from it: what is not there is `null`. -/
def Json.arrow (name : String) (j : Json) : Json := (j.member name).getD .null

/-- What `trimEventPayloads` leaves of a payload. -/
def trimPayload (payload : Json) : Json :=
  .obj [("id", payload.arrow "id"), ("type", payload.arrow "type"),
    ("created", payload.arrow "created"),
    ("data", .obj [("object",
      .obj [("id", ((payload.arrow "data").arrow "object").arrow "id")])])]

/-- `trimEventPayloads`, on one row, whether or not it has been processed. -/
def trimEvent (event : PaymentEvent) : PaymentEvent :=
  { event with payload := trimPayload event.payload }

/-- `interpret`. -/
def interpret (payload : Json) : Option GatewayOutcome := toOutcome payload

/-! ## What is claimed of a payload -/

/-- `kind`. -/
inductive OutcomeKind where
  | succeeded | failed | cancelled | ignored
  deriving DecidableEq

/-- The kind of an outcome. -/
def GatewayOutcome.kind : GatewayOutcome → OutcomeKind
  | .succeeded .. => .succeeded
  | .failed .. => .failed
  | .cancelled _ => .cancelled
  | .ignored => .ignored

/-- A payload that `parseWebhook` could have stored: the two columns beside it are texts, and it was
interpreted before it was stored. -/
structure Storable (payload : Json) : Prop where
  eventId : ∃ id, payload.member "id" = some (.str id)
  eventType : ∃ type, payload.member "type" = some (.str type)
  outcome : (interpret payload).isSome

/-- A payload and what is left of it have the same kind and the same intent, and every payment and
order they can meet decide them alike. -/
def ReplaysAlike (payload : Json) : Prop :=
  ∃ outcome outcome', interpret payload = some outcome ∧
    interpret (trimPayload payload) = some outcome' ∧ outcome.kind = outcome'.kind ∧
    outcome.intent = outcome'.intent ∧
    ∀ payment order, decidePaymentOutcome outcome payment order =
      decidePaymentOutcome outcome' payment order

/-! ## When it holds -/

/-- If the payload reports a success, it has a currency. -/
def NamesCurrency (payload : Json) : Prop :=
  ∀ object, eventShape payload = some ("payment_intent.succeeded", object) →
    ∃ currency, object.member "currency" = some (.str currency)

/-- The payload is of a type that is not acted on; or it reports a failure or a cancellation, and
has the id of an intent. -/
def SurvivesTrim (payload : Json) : Prop :=
  (∀ type, payload.member "type" = some (.str type) → type ≠ "payment_intent.succeeded" ∧
      type ≠ "payment_intent.payment_failed" ∧ type ≠ "payment_intent.canceled") ∨
    ∃ type object id, eventShape payload = some (type, object) ∧
      (type = "payment_intent.payment_failed" ∨ type = "payment_intent.canceled") ∧
      object.member "id" = some id

/-! ## Reading any payload -/

/-- The three types that are acted on, and the others. -/
theorem toOutcome_of_shape {payload object : Json} {type : String}
    (h : eventShape payload = some (type, object)) :
    toOutcome payload =
      if type = "payment_intent.succeeded" then
        (currencyOf object).map (.succeeded (object.member "id") (object.member "amount_received"))
      else if type = "payment_intent.payment_failed" then
        some (.failed (object.member "id") (failureReason object))
      else if type = "payment_intent.canceled" then some (.cancelled (object.member "id"))
      else some .ignored := by
  simp only [toOutcome, h]
  split
  · rfl
  · rfl
  · rfl
  · rename_i h₁ h₂ h₃
    rw [if_neg h₁, if_neg h₂, if_neg h₃]

theorem toOutcome_of_no_shape {payload : Json} (h : eventShape payload = none) :
    toOutcome payload = some .ignored := by
  rw [toOutcome, h]

/-- It throws for a success without a currency, and only then. -/
theorem interpret_isSome_iff (payload : Json) :
    (∃ outcome, interpret payload = some outcome) ↔ NamesCurrency payload := by
  have hcurrency : ∀ object : Json, (∃ c, currencyOf object = some c) ↔
      ∃ currency, object.member "currency" = some (.str currency) := by
    intro object
    rw [currencyOf]
    split
    · rename_i currency hc
      exact iff_of_true ⟨_, rfl⟩ ⟨currency, hc⟩
    · rename_i hno
      refine iff_of_false (fun h => ?_) fun h => ?_
      · obtain ⟨c, hc⟩ := h
        cases hc
      · obtain ⟨currency, hc⟩ := h
        exact hno currency hc
  rw [interpret]
  cases hshape : eventShape payload with
  | none =>
    refine iff_of_true ⟨_, toOutcome_of_no_shape hshape⟩ fun object h => ?_
    rw [hshape] at h
    cases h
  | some shape =>
    obtain ⟨type, object⟩ := shape
    rw [toOutcome_of_shape hshape]
    by_cases hs : type = "payment_intent.succeeded"
    · subst hs
      rw [if_pos rfl]
      constructor
      · rintro ⟨outcome, hmap⟩ object' h
        obtain ⟨-, rfl⟩ := Prod.mk.inj (Option.some.inj (hshape.symm.trans h))
        obtain ⟨c, hc, -⟩ := Option.map_eq_some_iff.mp hmap
        exact (hcurrency object).mp ⟨c, hc⟩
      · intro h
        obtain ⟨c, hc⟩ := (hcurrency object).mpr (h object hshape)
        exact ⟨_, by rw [hc, Option.map_some]⟩
    · refine iff_of_true ?_ fun object' h => ?_
      · rw [if_neg hs]
        split
        · exact ⟨_, rfl⟩
        · split
          · exact ⟨_, rfl⟩
          · exact ⟨_, rfl⟩
      · exact absurd (Prod.mk.inj (Option.some.inj (hshape.symm.trans h))).1 hs

/-! ## Reading a trimmed payload -/

/-- The object of a trimmed payload. -/
def trimObject (payload : Json) : Json :=
  .obj [("id", ((payload.arrow "data").arrow "object").arrow "id")]

/-- What is trimmed has the shape of an event if its type is a text, whatever it was. -/
theorem eventShape_trimPayload {payload : Json} {type : String}
    (h : payload.member "type" = some (.str type)) :
    eventShape (trimPayload payload) = some (type, trimObject payload) := by
  have htype : (trimPayload payload).member "type" = some (.str type) := by
    change some (payload.arrow "type") = _
    rw [Json.arrow, h, Option.getD_some]
  have hdata : (trimPayload payload).member "data" = some (.obj [("object", trimObject payload)]) :=
    rfl
  have hobject : (Json.obj [("object", trimObject payload)]).member "object" =
      some (trimObject payload) := rfl
  simp only [eventShape, htype, hdata, hobject]
  rfl

/-- The type and the object of an event. -/
theorem members_of_shape {payload object : Json} {type : String}
    (h : eventShape payload = some (type, object)) : payload.member "type" = some (.str type) ∧
      ∃ data, payload.member "data" = some data ∧ data.member "object" = some object := by
  simp only [eventShape] at h
  split at h
  · split at h
    · rename_i type' data htype hdata
      split at h
      · split at h
        · rename_i object' hobject
          split at h
          · obtain ⟨rfl, rfl⟩ := Prod.mk.inj (Option.some.inj h)
            exact ⟨htype, data, hdata, hobject⟩
          · cases h
        · cases h
      · cases h
    · cases h
  · cases h

/-- The id that is left of the id of an object. -/
theorem member_id_trimObject {payload object : Json} {type : String}
    (h : eventShape payload = some (type, object)) :
    (trimObject payload).member "id" = some (object.arrow "id") := by
  obtain ⟨-, data, hdata, hobject⟩ := members_of_shape h
  have hmember : (trimObject payload).member "id" =
      some (((payload.arrow "data").arrow "object").arrow "id") := rfl
  have harrow : (payload.arrow "data").arrow "object" = object := by
    simp [Json.arrow, hdata, hobject]
  rw [hmember, harrow]

/-- A trimmed success cannot be read. -/
theorem currencyOf_trimObject (payload : Json) : currencyOf (trimObject payload) = none := rfl

/-- What a trimmed payload is read as. -/
theorem interpret_trimPayload {payload : Json} {type : String}
    (h : payload.member "type" = some (.str type)) :
    interpret (trimPayload payload) =
      if type = "payment_intent.succeeded" then none
      else if type = "payment_intent.payment_failed" then
        some (.failed ((trimObject payload).member "id") none)
      else if type = "payment_intent.canceled" then
        some (.cancelled ((trimObject payload).member "id"))
      else some .ignored := by
  rw [interpret, toOutcome_of_shape (eventShape_trimPayload h), currencyOf_trimObject]
  rfl

/-- An id that is left is the id that was there, if one was. -/
theorem member_eq_arrow_iff (object : Json) (name : String) :
    object.member name = some (object.arrow name) ↔ ∃ value, object.member name = some value := by
  constructor
  · exact fun h => ⟨_, h⟩
  · rintro ⟨value, h⟩
    rw [Json.arrow, h, Option.getD_some]

/-- A failure or a cancellation: whether it had the shape of an event, and an id. -/
theorem replaysAlike_closed {payload : Json} {type : String}
    (closed : Option Json → Option Json → GatewayOutcome) (kind : OutcomeKind)
    (hkind : ∀ id reason, (closed id reason).kind = kind ∧ (closed id reason).intent = some id)
    (hne : kind ≠ .ignored)
    (hdecide : ∀ id reason payment order, decidePaymentOutcome (closed id reason) payment order =
      decidePaymentOutcome (closed id none) payment order)
    (hread : ∀ object, eventShape payload = some (type, object) →
      ∃ reason, interpret payload = some (closed (object.member "id") reason))
    (htrim : interpret (trimPayload payload) =
      some (closed ((trimObject payload).member "id") none))
    (htype : payload.member "type" = some (.str type)) :
    ReplaysAlike payload ↔
      ∃ object id, eventShape payload = some (type, object) ∧ object.member "id" = some id := by
  cases hshape : eventShape payload with
  | none =>
    have hignored : interpret payload = some .ignored := toOutcome_of_no_shape hshape
    refine iff_of_false (fun h => ?_) fun h => ?_
    · obtain ⟨outcome, outcome', ho, ho', heq, -⟩ := h
      obtain rfl := Option.some.inj (hignored.symm.trans ho)
      obtain rfl := Option.some.inj (htrim.symm.trans ho')
      rw [(hkind _ _).1] at heq
      exact hne heq.symm
    · obtain ⟨object, id, hsome, -⟩ := h
      cases hsome
  | some shape =>
    obtain ⟨type', object⟩ := shape
    obtain rfl : type' = type := by
      have hmember := (members_of_shape hshape).1
      rw [htype] at hmember
      simpa using hmember.symm
    obtain ⟨reason, hreason⟩ := hread object hshape
    have hid := member_id_trimObject hshape
    constructor
    · rintro ⟨outcome, outcome', ho, ho', -, hintent, -⟩
      obtain rfl := Option.some.inj (hreason.symm.trans ho)
      obtain rfl := Option.some.inj (htrim.symm.trans ho')
      rw [(hkind _ _).2, (hkind _ _).2, hid, Option.some.injEq, member_eq_arrow_iff] at hintent
      obtain ⟨id, hid'⟩ := hintent
      exact ⟨object, id, rfl, hid'⟩
    · rintro ⟨object', id, hsome, hid'⟩
      obtain ⟨-, rfl⟩ := Prod.mk.inj (Option.some.inj hsome)
      have hsame : (trimObject payload).member "id" = object.member "id" :=
        hid.trans ((member_eq_arrow_iff object "id").mpr ⟨id, hid'⟩).symm
      refine ⟨_, _, hreason, htrim, ?_, ?_, fun payment order => ?_⟩
      · rw [(hkind _ _).1, (hkind _ _).1]
      · rw [(hkind _ _).2, (hkind _ _).2, hsame]
      · rw [hdecide, hsame]

/-- Which payloads are read alike. -/
theorem replaysAlike_iff {payload : Json} (h : Storable payload) :
    ReplaysAlike payload ↔ SurvivesTrim payload := by
  obtain ⟨type, htype⟩ := h.eventType
  have htrim := interpret_trimPayload htype
  have hshape : ∀ type' object, eventShape payload = some (type', object) → type' = type := by
    intro type' object hs
    have hmember := (members_of_shape hs).1
    rw [htype] at hmember
    simpa using hmember.symm
  -- the second way to survive, at this type
  have hclosed : type = "payment_intent.payment_failed" ∨ type = "payment_intent.canceled" →
      (SurvivesTrim payload ↔ ∃ object id, eventShape payload = some (type, object) ∧
        object.member "id" = some id) := by
    intro hor
    constructor
    · rintro (hother | ⟨type', object, id, hs, -, hid⟩)
      · obtain ⟨-, hfailed, hcanceled⟩ := hother type htype
        exact absurd hor (not_or.mpr ⟨hfailed, hcanceled⟩)
      · obtain rfl := hshape type' object hs
        exact ⟨object, id, hs, hid⟩
    · rintro ⟨object, id, hs, hid⟩
      exact Or.inr ⟨type, object, id, hs, hor, hid⟩
  by_cases hsucceeded : type = "payment_intent.succeeded"
  · rw [if_pos hsucceeded] at htrim
    refine iff_of_false (fun hr => ?_) fun hr => ?_
    · obtain ⟨outcome, outcome', -, ho', -⟩ := hr
      rw [htrim] at ho'
      cases ho'
    · rcases hr with hother | ⟨type', object, id, hs, hor, -⟩
      · exact (hother type htype).1 hsucceeded
      · rw [hshape type' object hs, hsucceeded] at hor
        exact absurd hor (by decide)
  rw [if_neg hsucceeded] at htrim
  by_cases hfailed : type = "payment_intent.payment_failed"
  · rw [if_pos hfailed] at htrim
    rw [hclosed (Or.inl hfailed)]
    refine replaysAlike_closed .failed .failed (fun _ _ => ⟨rfl, rfl⟩)
      (by decide) (fun id reason payment order => ?_) (fun object hs => ?_) htrim htype
    · cases payment <;> rfl
    · exact ⟨failureReason object, by rw [interpret, toOutcome_of_shape hs, if_neg hsucceeded,
        if_pos hfailed]⟩
  rw [if_neg hfailed] at htrim
  by_cases hcanceled : type = "payment_intent.canceled"
  · rw [if_pos hcanceled] at htrim
    rw [hclosed (Or.inr hcanceled)]
    refine replaysAlike_closed (fun id _ => .cancelled id) .cancelled
      (fun _ _ => ⟨rfl, rfl⟩) (by decide) (fun _ _ _ _ => rfl) (fun object hs => ?_) htrim htype
    exact ⟨none, by rw [interpret, toOutcome_of_shape hs, if_neg hsucceeded, if_neg hfailed,
      if_pos hcanceled]⟩
  · rw [if_neg hcanceled] at htrim
    have hignored : interpret payload = some .ignored := by
      cases hs : eventShape payload with
      | none => exact toOutcome_of_no_shape hs
      | some shape =>
        obtain ⟨type', object⟩ := shape
        obtain rfl := hshape type' object hs
        rw [interpret, toOutcome_of_shape hs, if_neg hsucceeded, if_neg hfailed, if_neg hcanceled]
    refine iff_of_true ⟨.ignored, .ignored, hignored, htrim, rfl, rfl, fun _ _ => rfl⟩
      (Or.inl fun type' ht => ?_)
    rw [htype] at ht
    obtain rfl : type = type' := by simpa using ht
    exact ⟨hsucceeded, hfailed, hcanceled⟩

/-- Every JSON value is interpreted without throwing, if and only if it is not a success without a
currency. What is left of a stored payload after trimming has the same kind and the same intent and
is decided alike, if and only if it is of a type that is not acted on, or it reports a failure or
a cancellation and has the id of an intent. -/
theorem replay_stable_iff (payload : Json) :
    ((∃ outcome, interpret payload = some outcome) ↔ NamesCurrency payload) ∧
    (Storable payload → (ReplaysAlike payload ↔ SurvivesTrim payload)) :=
  ⟨interpret_isSome_iff payload, replaysAlike_iff⟩

/-- The cancellation of an intent, as the gateway reports it. -/
def cancelPayload : Json :=
  Gateway.eventPayload "ev1" "payment_intent.canceled" "pi" ⟨9000, "thb", 100, none, .canceled⟩

theorem replay_stable_iff_canceled : Storable cancelPayload ∧ ReplaysAlike cancelPayload := by
  have hstorable : Storable cancelPayload := ⟨⟨"ev1", rfl⟩, ⟨_, rfl⟩, rfl⟩
  exact ⟨hstorable, ((replay_stable_iff cancelPayload).2 hstorable).mpr
    (Or.inr ⟨_, _, _, rfl, Or.inr rfl, rfl⟩)⟩

/-- The success of an intent over 90 baht, as the gateway reports it. -/
def successPayload : Json :=
  Gateway.eventPayload "ev1" "payment_intent.succeeded" "pi" ⟨9000, "thb", 100, none, .succeeded⟩

/-- It was stored, and what is left of it throws. -/
theorem trimmed_success_throws : Storable successPayload ∧
    interpret (trimPayload successPayload) = none ∧ ¬ ReplaysAlike successPayload := by
  refine ⟨⟨⟨"ev1", rfl⟩, ⟨_, rfl⟩, rfl⟩, rfl, ?_⟩
  rintro ⟨outcome, outcome', -, ho', -⟩
  cases ho'

end CafePos
