import Atlas.Orchestration.ExecutorGate

/-! What a resume payload decides. `votes` reads a payload the way its sender wrote it: every value it
    gives for one action id, whatever the shape. Parsing keeps, for each gated id, exactly one decision
    per vote, with the truth value of the vote (`mem_parseDecisions`), and nothing for any other id
    (`parseDecisions_restrict`). Consent in the strict sense, a literal `true` and no rejection, is
    therefore what an execution rests on exactly when truthy votes are literal and undisputed. -/

namespace Atlas

variable {σ : Type}

/-! ### Votes -/

/-- What one item of a decision list says about an id; a missing value is a rejection. -/
def itemVotes (actionId : String) : Json → List Json
  | .obj item =>
    match Json.field? "action_id" item with
    | some (.str id) =>
      if id = actionId then [(Json.field? "approved" item).getD (.bool false)] else []
    | _ => []
  | _ => []

/-- What one entry of an id list says about an id. -/
def idVotes (actionId : String) (approved : Bool) : Json → List Json
  | .str id => if id = actionId then [.bool approved] else []
  | _ => []

/-- What the ids listed under one key say about an id. -/
def fieldVotes (actionId key : String) (approved : Bool) (fields : List (String × Json)) : List Json :=
  match ((Json.field? key fields).getD (.arr [])).iterate with
  | .ok ids => ids.flatMap (idVotes actionId approved)
  | .error _ => []

/-- Every value a payload gives for an action id. -/
def votes (raw : Json) (actionId : String) : List Json :=
  match raw with
  | .bool b => [.bool b]
  | .arr items => items.flatMap (itemVotes actionId)
  | .obj fields =>
    if listsShape fields then
      fieldVotes actionId "approved_ids" true fields ++ fieldVotes actionId "rejected_ids" false fields
    else (fields.filter (·.1 == actionId)).map (·.2)
  | _ => []

/-- The payload grants the id with the boolean value true. -/
def Grants (raw : Json) (actionId : String) : Prop := .bool true ∈ votes raw actionId

/-- Some value the payload gives for the id is a refusal. -/
def Rejects (raw : Json) (actionId : String) : Prop := ∃ v ∈ votes raw actionId, v.truthy = false

/-! ### What parsing keeps -/

/-- A parser of single entries keeps, for each valid id, the votes of the entry. -/
def KeepsVotes (validIds : List String) (f : Json → Except PyError (List ApprovalDecision))
    (vote : String → Json → List Json) : Prop :=
  ∀ v ds, f v = .ok ds → ∀ id b, (∃ d ∈ ds, d.actionId = id ∧ d.approved = b) ↔
    id ∈ validIds ∧ ∃ w ∈ vote id v, w.truthy = b

theorem memberOf_eq_ok {ids : List String} {v : Json} {b : Bool} (h : v.memberOf ids = .ok b) :
    b = true ↔ ∃ s ∈ ids, v = .str s := by
  cases v with
  | str s => simp only [Json.memberOf, Except.ok.injEq] at h; subst h; simp
  | arr items => cases h
  | obj fields => cases h
  | _ => simp only [Json.memberOf, Except.ok.injEq] at h; subst h; simp

/-- An entry that names one id, and is taken if the id is valid, keeps its votes: they are all for this id,
    and come to what the decision says. -/
theorem kept_of_memberOf (vote : String → List Json) {validIds : List String} {v : Json}
    {d : ApprovalDecision} {ds : List ApprovalDecision} (hd : d.actionId = v.pyStr)
    (hnamed : ∀ id, ∀ w ∈ vote id, v = .str id)
    (hvotes : ∀ id, v = .str id → ∀ b, (∃ w ∈ vote id, w.truthy = b) ↔ d.approved = b)
    (h : (do if (← v.memberOf validIds) then return [d] else return []) = Except.ok ds) (id : String)
    (b : Bool) :
    (∃ d' ∈ ds, d'.actionId = id ∧ d'.approved = b) ↔ id ∈ validIds ∧ ∃ w ∈ vote id, w.truthy = b := by
  cases hm : v.memberOf validIds with
  | error e => rw [hm] at h; cases h
  | ok keep =>
    simp only [hm, bind, Except.bind, pure, Except.pure] at h
    have hkeep := memberOf_eq_ok hm
    cases keep with
    | true =>
      obtain ⟨s, hs, hv⟩ := hkeep.mp rfl
      simp only [if_true, Except.ok.injEq] at h
      subst h
      rw [hv, Json.pyStr] at hd
      simp only [List.mem_singleton, exists_eq_left, hd]
      by_cases hid : s = id
      · subst hid
        rw [hvotes s hv b]
        simp [hs]
      · refine iff_of_false (fun h => hid h.1) ?_
        rintro ⟨-, w, hw, -⟩
        exact hid (Json.str.inj (hv.symm.trans (hnamed id w hw)))
    | false =>
      simp only [Bool.false_eq_true, if_false, Except.ok.injEq] at h
      subst h
      refine iff_of_false (fun ⟨d', hd', _⟩ => List.not_mem_nil hd') ?_
      rintro ⟨hid, w, hw, -⟩
      exact absurd (hkeep.mpr ⟨id, hid, hnamed id w hw⟩) (by decide)

theorem keepsVotes_item (validIds : List String) :
    KeepsVotes validIds (decisionOfItem validIds) itemVotes := by
  intro v ds h id b
  cases v with
  | obj item =>
    refine kept_of_memberOf (itemVotes · (.obj item)) rfl (fun id w hw => ?_) (fun id hv b => ?_) h id b
    · simp only [itemVotes] at hw
      split at hw
      next s hf =>
        split at hw
        next heq => rw [hf, heq, Option.getD_some]
        next => exact absurd hw List.not_mem_nil
      next => exact absurd hw List.not_mem_nil
    · have hfield : Json.field? "action_id" item = some (.str id) := by
        cases hf : Json.field? "action_id" item with
        | none => rw [hf] at hv; cases hv
        | some w => rw [hf] at hv; exact congrArg some hv
      simp only [itemVotes, hfield, if_true, List.mem_singleton, exists_eq_left]
  | _ => simp only [decisionOfItem] at h; cases h; simp [itemVotes]

theorem keepsVotes_id (validIds : List String) (approved : Bool) :
    KeepsVotes validIds (decisionOfId validIds approved) (idVotes · approved) := by
  intro v ds h id b
  refine kept_of_memberOf (idVotes · approved v) rfl (fun id w hw => ?_) (fun id hv b => ?_) h id b
  · cases v with
    | str s =>
      simp only [idVotes] at hw
      split at hw
      next heq => rw [heq]
      next => exact absurd hw List.not_mem_nil
    | _ => exact absurd hw List.not_mem_nil
  · subst hv
    simp [idVotes, Json.truthy]

/-- The loop over the entries of a payload keeps the votes of all of them. -/
theorem mem_collectDecisions {validIds : List String} {f : Json → Except PyError (List ApprovalDecision)}
    {vote : String → Json → List Json} (hf : KeepsVotes validIds f vote) (id : String) (b : Bool) :
    ∀ (vs : List Json) (ds : List ApprovalDecision), collectDecisions f vs = .ok ds →
      ((∃ d ∈ ds, d.actionId = id ∧ d.approved = b) ↔
        id ∈ validIds ∧ ∃ w ∈ vs.flatMap (vote id), w.truthy = b)
  | [], ds, h => by cases h; simp
  | v :: vs, ds, h => by
      rw [collectDecisions] at h
      cases hv : f v with
      | error e => rw [hv] at h; cases h
      | ok first =>
        cases hrest : collectDecisions f vs with
        | error e => rw [hv, hrest] at h; cases h
        | ok rest =>
          simp only [hv, hrest, bind, Except.bind, pure, Except.pure, Except.ok.injEq] at h
          subst h
          have h1 := hf v first hv id b
          have h2 := mem_collectDecisions hf id b vs rest hrest
          simp only [List.mem_append, List.flatMap_cons, or_and_right, exists_or, h1, h2, ← and_or_left]

/-- The ids listed under one key keep their votes. -/
theorem mem_decisionsOfField {validIds : List String} {key : String} {approved : Bool}
    {fields : List (String × Json)} {ds : List ApprovalDecision}
    (h : decisionsOfField validIds key approved fields = .ok ds) (id : String) (b : Bool) :
    (∃ d ∈ ds, d.actionId = id ∧ d.approved = b) ↔
      id ∈ validIds ∧ ∃ v ∈ fieldVotes id key approved fields, v.truthy = b := by
  rw [decisionsOfField, Fallible.bind_eq_ok] at h
  obtain ⟨ids, hids, hds⟩ := h
  rw [fieldVotes, hids]
  exact mem_collectDecisions (keepsVotes_id validIds approved) id b ids ds hds

/-- Parsing keeps one decision per vote for a valid id, with the truth value of the vote. -/
theorem mem_parseDecisions {order : SetOrder} {raw : Json} {validIds : List String}
    {ds : List ApprovalDecision} (h : parseDecisions order raw validIds = .ok ds) (id : String) (b : Bool) :
    (∃ d ∈ ds, d.actionId = id ∧ d.approved = b) ↔
      id ∈ validIds ∧ ∃ v ∈ votes raw id, v.truthy = b := by
  cases raw with
  | bool c =>
    simp only [parseDecisions, Except.ok.injEq] at h
    subst h
    have hmem : id ∈ order.enumerate validIds ↔ id ∈ validIds := by
      rw [(order.perm validIds).mem_iff, List.mem_dedup]
    simp [votes, Json.truthy, hmem]
  | arr items => exact mem_collectDecisions (keepsVotes_item validIds) id b items ds h
  | obj fields =>
    rw [votes]
    by_cases hs : listsShape fields = true
    · rw [if_pos hs]
      simp only [parseDecisions, if_pos hs, Fallible.bind_eq_ok, Fallible.pure_eq_ok] at h
      obtain ⟨yes, hyes, no, hno, rfl⟩ := h
      have h1 := mem_decisionsOfField hyes id b
      have h2 := mem_decisionsOfField hno id b
      simp only [List.mem_append, or_and_right, exists_or, h1, h2, ← and_or_left]
    · rw [if_neg hs]
      simp only [parseDecisions, if_neg hs, Except.ok.injEq] at h
      subst h
      simp only [List.mem_map, List.mem_filter, List.contains_iff_mem, beq_iff_eq]
      constructor
      · rintro ⟨d, ⟨f, ⟨hf, hv⟩, rfl⟩, rfl, hb⟩
        exact ⟨hv, f.2, ⟨f, ⟨hf, rfl⟩, rfl⟩, hb⟩
      · rintro ⟨hv, v, ⟨f, ⟨hf, rfl⟩, rfl⟩, hb⟩
        exact ⟨_, ⟨f, ⟨hf, hv⟩, rfl⟩, rfl, hb⟩
  | _ => simp only [parseDecisions, Except.ok.injEq] at h; subst h; simp [votes]

/-! ### Entries for other ids -/

/-- Does an item of a decision list speak about one of `ids`? Items without a text id stay, so that a
    malformed payload fails as before. -/
def keepItem (ids : List String) : Json → Bool
  | .obj item =>
    match Json.field? "action_id" item with
    | some (.str id) => ids.contains id
    | _ => true
  | _ => true

def keepId (ids : List String) : Json → Bool
  | .str id => ids.contains id
  | _ => true

/-- An id list without the ids outside `ids`. -/
def restrictIds (ids : List String) : Json → Json
  | .arr vs => .arr (vs.filter (keepId ids))
  | v => v

/-- A field of the `approved_ids` / `rejected_ids` shape without the ids outside `ids`. -/
def restrictField (ids : List String) (f : String × Json) : String × Json :=
  (f.1, if f.1 = "approved_ids" ∨ f.1 = "rejected_ids" then restrictIds ids f.2 else f.2)

/-- The payload without its entries for ids outside `ids`. -/
def restrict (ids : List String) : Json → Json
  | .arr items => .arr (items.filter (keepItem ids))
  | .obj fields =>
    if listsShape fields then .obj (fields.map (restrictField ids))
    else .obj (fields.filter (fun f => ids.contains f.1))
  | raw => raw

/-- A loop that gets nothing from the entries a filter drops does not see the filter. -/
theorem collectDecisions_filter {f : Json → Except PyError (List ApprovalDecision)} {keep : Json → Bool}
    (h : ∀ v, keep v = false → f v = .ok []) : ∀ vs : List Json,
    collectDecisions f (vs.filter keep) = collectDecisions f vs
  | [] => rfl
  | v :: vs => by
      rw [List.filter_cons]
      split
      next hk => rw [collectDecisions, collectDecisions, collectDecisions_filter h vs]
      next hk =>
        rw [collectDecisions_filter h vs, collectDecisions, h v (by simpa using hk)]
        cases collectDecisions f vs <;> rfl

theorem decisionOfItem_of_not_keep {ids : List String} {v : Json} (h : keepItem ids v = false) :
    decisionOfItem ids v = .ok [] := by
  cases v with
  | obj item =>
    simp only [keepItem] at h
    split at h
    next id hf =>
      have hm : (Json.str id).memberOf ids = .ok false := by rw [Json.memberOf, h]
      simp only [decisionOfItem, hf, Option.getD_some, hm]; rfl
    next => exact Bool.noConfusion h
  | _ => exact Bool.noConfusion h

theorem decisionOfId_of_not_keep {ids : List String} {approved : Bool} {v : Json}
    (h : keepId ids v = false) : decisionOfId ids approved v = .ok [] := by
  cases v with
  | str id =>
    have hm : (Json.str id).memberOf ids = .ok false := by rw [Json.memberOf]; exact congrArg _ h
    simp only [decisionOfId, hm]; rfl
  | _ => exact Bool.noConfusion h

theorem field?_restrictField (ids : List String) {key : String}
    (hkey : key = "approved_ids" ∨ key = "rejected_ids") : ∀ fields : List (String × Json),
    Json.field? key (fields.map (restrictField ids)) = (Json.field? key fields).map (restrictIds ids)
  | [] => rfl
  | (k, v) :: fields => by
      have ih := field?_restrictField ids hkey fields
      simp only [Json.field?] at ih ⊢
      rw [List.map_cons, restrictField, List.lookup_cons, List.lookup_cons, ih]
      by_cases hk : key = k
      · subst hk; simp [hkey]
      · have hb : (key == k) = false := by simpa using hk
        simp [hb]

/-- The decisions listed under a key of the shape do not see the restriction. -/
theorem decisionsOfField_restrict (ids : List String) {key : String} (approved : Bool)
    (hkey : key = "approved_ids" ∨ key = "rejected_ids") (fields : List (String × Json)) :
    decisionsOfField ids key approved (fields.map (restrictField ids)) =
      decisionsOfField ids key approved fields := by
  rw [decisionsOfField, decisionsOfField, field?_restrictField ids hkey]
  cases Json.field? key fields with
  | none => rfl
  | some v =>
    cases v with
    | arr vs => exact collectDecisions_filter (fun _ h => decisionOfId_of_not_keep h) vs
    | _ => rfl

theorem listsShape_restrict (ids : List String) (fields : List (String × Json)) :
    listsShape (fields.map (restrictField ids)) = listsShape fields := by
  simp only [listsShape, field?_restrictField ids (Or.inl rfl), field?_restrictField ids (Or.inr rfl),
    Option.isSome_map]

theorem listsShape_filter {fields : List (String × Json)} (p : String → Bool)
    (h : listsShape fields = false) : listsShape (fields.filter (fun f => p f.1)) = false := by
  simp only [listsShape, Json.field?, Bool.or_eq_false_iff, Option.isSome_eq_false_iff,
    Option.isNone_iff_eq_none, Dict.lookup_filter] at h ⊢
  constructor
  · rw [h.1]; exact ite_self _
  · rw [h.2]; exact ite_self _

/-- Entries for ids that are not valid change nothing, not even the order of the decisions. -/
theorem parseDecisions_restrict (order : SetOrder) (raw : Json) (ids : List String) :
    parseDecisions order (restrict ids raw) ids = parseDecisions order raw ids := by
  cases raw with
  | arr items => exact collectDecisions_filter (fun _ h => decisionOfItem_of_not_keep h) items
  | obj fields =>
    rw [restrict]
    by_cases hs : listsShape fields = true
    · have hr : listsShape (fields.map (restrictField ids)) = true := by rw [listsShape_restrict, hs]
      rw [if_pos hs]
      simp only [parseDecisions, if_pos hr, if_pos hs, decisionsOfField_restrict ids true (Or.inl rfl),
        decisionsOfField_restrict ids false (Or.inr rfl)]
    · rw [if_neg hs]
      have hf : ¬listsShape (fields.filter (fun f => ids.contains f.1)) = true := by
        rw [listsShape_filter ids.contains (by simpa using hs)]; decide
      simp only [parseDecisions, if_neg hf, if_neg hs, List.filter_filter, Bool.and_self]
  | _ => rfl

/-! ### Consent -/

theorem hasExecuted_foldl_decided (i : String) : ∀ (ds : List ApprovalDecision) (audit : AuditLog),
    (ds.foldl AuditLog.decided audit).hasExecuted i = audit.hasExecuted i
  | [], _ => rfl
  | d :: ds, audit => by
      rw [List.foldl_cons, hasExecuted_foldl_decided i ds, AuditLog.hasExecuted_decided]

/-- The decision an `APPROVED` or `REJECTED` event records. -/
def recordedDecision (e : AuditEvent) : ApprovalDecision where
  actionId := e.actionId
  approved := e.eventType == .approved
  decidedBy := e.actor

/-- Recording decisions appends one event for each, which says what was decided and by whom. -/
theorem events_foldl_decided (ds : List ApprovalDecision) (audit : AuditLog) :
    ∃ new, (ds.foldl AuditLog.decided audit).events = audit.events ++ new ∧
      new.map recordedDecision = ds ∧ ∀ e ∈ new, e.eventType = .approved ∨ e.eventType = .rejected := by
  induction ds generalizing audit with
  | nil => exact ⟨[], by simp, rfl, by simp⟩
  | cons d ds ih =>
    obtain ⟨new, hnew, hmap, htypes⟩ := ih (audit.decided d)
    rw [List.foldl_cons]
    refine ⟨_ :: new, by rw [hnew]; exact List.append_assoc .., ?_, ?_⟩
    · rw [List.map_cons, hmap]
      obtain ⟨actionId, approved, decidedBy⟩ := d
      cases approved <;> rfl
    · intro e he
      rcases List.mem_cons.mp he with rfl | he
      · cases d.approved <;> simp
      · exact htypes e he

/-- What the approval node does: it approves the gated ids with a truthy vote, and logs the decisions. -/
theorem approvalNode_eq_ok {order : SetOrder} {raw : Json} {state state' : AgentState}
    {audit audit' : AuditLog} (h : approvalNode order raw state audit = .ok (state', audit')) :
    state'.proposedActions = state.proposedActions ∧ state'.principal = state.principal ∧
      (∀ id, id ∈ state'.approvedActionIds ↔ id ∈ (gatedActions state).map (·.actionId) ∧
        ∃ v ∈ votes raw id, v.truthy = true) ∧
      ∃ ds : List ApprovalDecision, audit' = ds.foldl AuditLog.decided audit := by
  simp only [approvalNode, Fallible.bind_eq_ok, Fallible.pure_eq_ok, Prod.mk.injEq] at h
  obtain ⟨ds, hds, rfl, rfl⟩ := h
  refine ⟨rfl, rfl, fun id => ?_, ds, rfl⟩
  rw [← mem_parseDecisions hds id true]
  simp only [List.mem_map, List.mem_filter]
  constructor
  · rintro ⟨d, ⟨hd, happ⟩, hid⟩; exact ⟨d, hd, hid, happ⟩
  · rintro ⟨d, hd, hid, happ⟩; exact ⟨d, ⟨hd, happ⟩, hid⟩

/-- Strict consent over one resume: a gated action runs only on a literal grant of its id that nothing
    in the payload contradicts, and entries for other ids are without effect. -/
structure ConsentBound (order : SetOrder) (raw : Json) (reg : ToolRegistry σ) (policy : ℕ → PolicyStore)
    (state : AgentState) (audit : AuditLog) (world : σ) : Prop where
  executes : ∀ state' audit', approvalNode order raw state audit = .ok (state', audit') →
    ∀ c ∈ executorCalls reg policy state' audit' world, c.action.needsApproval = true →
      Grants raw c.action.actionId ∧ ¬Rejects raw c.action.actionId
  others : approvalNode order (restrict ((gatedActions state).map (·.actionId)) raw) state audit =
    approvalNode order raw state audit

/-- For every gated action that only an approval keeps from running: if the payload gives its id a
    truthy value at all, then it gives it the literal `true` and no refusal. -/
def LiteralVotes (raw : Json) (reg : ToolRegistry σ) (policy : ℕ → PolicyStore) (state : AgentState)
    (audit : AuditLog) : Prop :=
  ∀ i a, state.proposedActions[i]? = some a → a.needsApproval = true →
    (∃ required, resolvePermission reg a = .ok required ∧
      (policy i).can (some (getCurrentPrincipal state)) required = true) →
    audit.hasExecuted a.actionId = false → (∃ v ∈ votes raw a.actionId, v.truthy = true) →
    Grants raw a.actionId ∧ ¬Rejects raw a.actionId

theorem others_unchanged (order : SetOrder) (raw : Json) (state : AgentState) (audit : AuditLog) :
    approvalNode order (restrict ((gatedActions state).map (·.actionId)) raw) state audit =
      approvalNode order raw state audit := by
  rw [approvalNode, approvalNode, parseDecisions_restrict]

theorem getElem?_take_ne {as : List ProposedAction} (hids : (as.map (·.actionId)).Nodup) {k : ℕ}
    {a : ProposedAction} (hk : as[k]? = some a) : ∀ b ∈ as.take k, b.actionId ≠ a.actionId := by
  intro b hb heq
  obtain ⟨hlt, rfl⟩ := List.getElem?_eq_some_iff.mp hk
  rw [← List.take_append_drop k as, List.map_append, List.nodup_append] at hids
  refine hids.2.2 b.actionId (List.mem_map_of_mem hb) as[k].actionId ?_ heq
  rw [List.drop_eq_getElem_cons hlt]
  exact List.mem_map_of_mem List.mem_cons_self

section consent
variable {order : SetOrder} {raw : Json} {reg : ToolRegistry σ} {policy : ℕ → PolicyStore}
  {state state' : AgentState} {audit audit' : AuditLog} {world : σ}

theorem getCurrentPrincipal_congr (h : state'.principal = state.principal) :
    getCurrentPrincipal state' = getCurrentPrincipal state := by
  rw [getCurrentPrincipal, getCurrentPrincipal, h]

theorem consentBound_of_literalVotes (h : LiteralVotes raw reg policy state audit) :
    ConsentBound order raw reg policy state audit world := by
  refine ⟨?_, others_unchanged order raw state audit⟩
  intro state' audit' haccept c hc hgated
  obtain ⟨hprop, hprin, happ, ds, rfl⟩ := approvalNode_eq_ok haccept
  have hlog := fun i => hasExecuted_foldl_decided i ds audit
  obtain ⟨i, hi, -, ⟨hperm, htier⟩, hfresh⟩ := mem_executorCalls hc
  rw [hprop] at hi
  rw [getCurrentPrincipal_congr hprin] at hperm
  have htier' : c.action.riskTier.isAutoSafe = false := by
    simpa [ProposedAction.needsApproval] using hgated
  have hid := htier.resolve_left (by simp [htier'])
  have hexec : audit.hasExecuted c.action.actionId = false := by
    rw [← hlog]; simpa [alreadyExecuted, htier'] using hfresh
  exact h i c.action hi hgated hperm hexec ((happ _).mp hid).2

theorem literalVotes_of_consentBound (hids : (state.proposedActions.map (·.actionId)).Nodup)
    (haccept : approvalNode order raw state audit = .ok (state', audit'))
    (h : ConsentBound order raw reg policy state audit world) :
    LiteralVotes raw reg policy state audit := by
  intro i a hi hgated hperm hexec hvote
  obtain ⟨hprop, hprin, happ, ds, rfl⟩ := approvalNode_eq_ok haccept
  have hid : a.actionId ∈ state'.approvedActionIds := by
    refine (happ _).mpr ⟨List.mem_map_of_mem ?_, hvote⟩
    exact List.mem_filter.mpr ⟨List.mem_of_getElem? hi, hgated⟩
  have hmay : MayRun reg (getCurrentPrincipal state') state'.approvedActionIds (policy (0 + i)) a := by
    rw [Nat.zero_add, getCurrentPrincipal_congr hprin]
    exact ⟨hperm, Or.inr hid⟩
  obtain ⟨c, hc, rfl⟩ := calls_of_mayRun reg _ _ policy state'.proposedActions 0 i
    { audit := ds.foldl AuditLog.decided audit, world := world } (by rw [hprop, hi]) hmay
    (Or.inr ⟨by rw [hprop]; exact getElem?_take_ne hids hi,
      by rw [hasExecuted_foldl_decided, hexec]⟩)
  exact h.executes state' _ haccept c hc hgated

end consent

/-- A resume runs gated actions on strict consent exactly when, for every gated action it would run,
    the payload's truthy values are literal and undisputed. -/
theorem consentBound_iff (order : SetOrder) (raw : Json) (reg : ToolRegistry σ) (policy : ℕ → PolicyStore)
    (state state' : AgentState) (audit audit' : AuditLog) (world : σ)
    (hids : (state.proposedActions.map (·.actionId)).Nodup)
    (haccept : approvalNode order raw state audit = .ok (state', audit')) :
    ConsentBound order raw reg policy state audit world ↔ LiteralVotes raw reg policy state audit :=
  ⟨literalVotes_of_consentBound hids haccept, consentBound_of_literalVotes⟩

/-! ### One paused turn -/

/-- Sets enumerated in the order of first occurrence. -/
def firstSeenOrder : SetOrder := ⟨List.dedup, fun _ => List.Perm.refl _⟩

/-- An admin's turn, paused on one gated action. -/
def pausedTurn : AgentState where
  principal := some { userId := "alice", roles := ["admin"] }
  proposedActions := [countingAction "a1" .send]

/-- An admin's turn, paused on two gated actions. -/
def twicePausedTurn : AgentState where
  principal := some { userId := "alice", roles := ["admin"] }
  proposedActions := [countingAction "a1" .send, countingAction "a2" .send]

/-- A payload that grants the first, refuses the second, and grants an id that is not gated. -/
def mixedPayload : Json := .obj [("a1", .bool true), ("a2", .bool false), ("a9", .bool true)]

theorem literalVotes_mixedPayload :
    LiteralVotes mixedPayload (countingRegistry .send) (fun _ => DEFAULT_POLICY) twicePausedTurn freshLog := by
  rintro i a hi - - - ⟨v, hv, htrue⟩
  have hgated : a = countingAction "a1" .send ∨ a = countingAction "a2" .send := by
    have hmem := List.mem_of_getElem? hi
    simpa [twicePausedTurn] using hmem
  rcases hgated with rfl | rfl
  · refine ⟨List.mem_singleton.mpr rfl, ?_⟩
    rintro ⟨w, hw, hfalse⟩
    rw [List.mem_singleton.mp hw] at hfalse
    cases hfalse
  · rw [List.mem_singleton.mp hv] at htrue
    cases htrue

theorem consentBound_granted :
    ConsentBound firstSeenOrder mixedPayload (countingRegistry .send) (fun _ => DEFAULT_POLICY)
      twicePausedTurn freshLog 0 := by
  refine (consentBound_iff firstSeenOrder mixedPayload (countingRegistry .send) (fun _ => DEFAULT_POLICY)
    twicePausedTurn { twicePausedTurn with approvedActionIds := ["a1"], rejectedActionIds := ["a2"] } freshLog
    ((freshLog.decided { actionId := "a1", approved := true }).decided
      { actionId := "a2", approved := false }) 0 (by decide) rfl).mpr ?_
  exact literalVotes_mixedPayload

/-- A decision whose value is the text `false`: the approval node reads it as an approval, and the
    executor runs the action. -/
theorem consentBound_fails : ¬ConsentBound firstSeenOrder
    (.arr [.obj [("action_id", .str "a1"), ("approved", .str "false")]]) (countingRegistry .send)
    (fun _ => DEFAULT_POLICY) pausedTurn freshLog 0 := by
  intro h
  have haccept : approvalNode firstSeenOrder
      (.arr [.obj [("action_id", .str "a1"), ("approved", .str "false")]]) pausedTurn freshLog =
      .ok ({ pausedTurn with approvedActionIds := ["a1"] },
        freshLog.decided { actionId := "a1", approved := true }) := rfl
  have hlit := literalVotes_of_consentBound (by decide) haccept h 0 (countingAction "a1" .send) rfl rfl
    ⟨some "tool:count", rfl, by decide⟩ rfl ⟨.str "false", List.mem_singleton.mpr rfl, rfl⟩
  exact Json.noConfusion (List.mem_singleton.mp hlit.1)

end Atlas
