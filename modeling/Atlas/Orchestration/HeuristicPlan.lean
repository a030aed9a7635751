import Atlas.Lib.Regex
import Atlas.ResourceScope

/-! The offline planning strategy. It looks for keywords in the lower-cased request, and takes a recipient
    and a channel out of it by two patterns; what it proposes is validated by the tools like any other
    arguments. The patterns and the validators fit together, so an action it returns is accepted again as it
    is, and one limit is left that a request can exceed: the length of a Slack post
    (`heuristicPlan_valid_iff`). -/

namespace Atlas

open Text Regex

variable {σ : Type}

/-! ### The registry -/

/-- `ToolRegistry.names`. -/
def ToolRegistry.names (reg : ToolRegistry σ) : List String := reg.tools.keys

/-- `default_registry` and `offline_registry`: the standard tools, registered in their order. -/
def standardRegistry (casing : Casing) (coerce : String → Json → Except String Json) (backends : Backends) :
    Except PyError (ToolRegistry ToolWorld) :=
  (standardTools casing coerce backends).foldlM (fun reg tool => reg.register tool) ToolRegistry.empty

section registry
variable {reg reg' : ToolRegistry σ}

/-- A registration takes a new name, and leaves the tools that are there. -/
theorem get_of_register {tool : BaseTool σ} (h : reg.register tool = .ok reg') :
    reg'.get tool.name = .ok tool ∧ ∀ {n t}, reg.get n = .ok t → reg'.get n = .ok t := by
  simp only [ToolRegistry.register, Fallible.ite_error_eq_ok] at h
  obtain ⟨hnew, h⟩ := h
  cases h
  simp only [ToolRegistry.get_eq_ok_iff, Dict.get?_set_self, true_and]
  intro n t ht
  rw [Dict.get?_set_ne _ _ ?_, ht]
  rintro rfl
  simp [ht] at hnew

theorem get_of_registerAll {tools : List (BaseTool σ)}
    (h : tools.foldlM (fun reg tool => reg.register tool) reg = .ok reg') :
    (∀ tool ∈ tools, reg'.get tool.name = .ok tool) ∧ ∀ {n t}, reg.get n = .ok t → reg'.get n = .ok t := by
  induction tools generalizing reg with
  | nil =>
    cases h
    simp
  | cons tool tools ih =>
    rw [List.foldlM_cons, Fallible.bind_eq_ok] at h
    obtain ⟨next, hnext, hrest⟩ := h
    obtain ⟨hget, hkept⟩ := get_of_register hnext
    obtain ⟨htools, hkept'⟩ := ih hrest
    exact ⟨List.forall_mem_cons.mpr ⟨hkept' hget, htools⟩, fun ht => hkept' (hkept ht)⟩

theorem contains_names_of_get {n : String} {tool : BaseTool σ} (h : reg.get n = .ok tool) :
    reg.names.contains n = true := by
  rw [List.contains_iff_mem, ToolRegistry.names, Dict.mem_keys_iff, ToolRegistry.get_eq_ok_iff.mp h]
  rfl

end registry

/-! ### Patterns -/

/-- `\w` of a pattern for texts: letters, digits and the underscore. None of them is white space or `@`. -/
structure WordChars where
  isWord : Char → Bool
  not_space : ∀ c, isWord c = true → isSpace c = false
  not_at : isWord '@' = false

section patterns
variable (word : WordChars)

/-- `\w` or one of the characters given. -/
def wordOr (extra : List Char) (c : Char) : Bool := word.isWord c || extra.contains c

/-- `_EMAIL_RE`. -/
def EMAIL_RE : List Piece :=
  [.many1 (wordOr word ['.', '+', '-']), .one (· == '@'), .many1 (wordOr word ['-']), .one (· == '.'),
    .many1 (wordOr word ['.', '-'])]

/-- `_SLACK_CHANNEL_RE`. -/
def SLACK_CHANNEL_RE : List Piece := [.one (· == '#'), .many1 (wordOr word ['-'])]

/-- `_EMAIL_RE.search(request)`, as the text of the match. -/
def findEmail (request : String) : Option String :=
  (search (EMAIL_RE word) request.toList).map fun spans => String.ofList spans.flatten

/-- `_SLACK_CHANNEL_RE.search(request)`, as its group. -/
def findChannel (request : String) : Option String :=
  (search (SLACK_CHANNEL_RE word) request.toList).map fun spans => String.ofList (spans.getD 1 [])

end patterns

/-! ### The strategy -/

def SEND_KEYWORDS : List String := ["email", "send", "notify", "reply", "message"]

def SEARCH_KEYWORDS : List String :=
  ["search", "find", "look up", "lookup", "research", "what", "who", "lookup"]

def SLACK_KEYWORDS : List String := ["slack"]

/-- `any(keyword in text for keyword in keywords)`. -/
def mentions (keywords : List String) (text : String) : Bool := keywords.any (occursIn · text)

section plan
variable (word : WordChars) (low : Lowering) (freshId : ℕ → String) (request : String)

/-- The request is one for a Slack post. -/
def asksForPost (reg : ToolRegistry σ) : Bool :=
  mentions SLACK_KEYWORDS (low.lower request) && reg.names.contains "slack_post" &&
    (findEmail word request).isNone

/-- The channel of the request, or the general one. -/
def requestChannel : String :=
  match findChannel word request with
  | some name => "#" ++ name
  | none => "#general"

/-- The actions of one intent: none if the request does not have it or there is no such tool. -/
def proposeIf (reg : ToolRegistry σ) (keywords : List String) (tool actionId : String) (args : Args)
    (rationale : String) : Except PyError (List ProposedAction) :=
  if mentions keywords (low.lower request) && reg.names.contains tool then
    (reg.propose actionId tool args rationale).map fun action => [action]
  else .ok []

/-- `heuristic_plan`; `freshId` are the ids that its actions receive. -/
def heuristicPlan (reg : ToolRegistry σ) : Except PyError (List ProposedAction) :=
  if asksForPost word low request reg then
    (reg.propose (freshId 0) "slack_post"
      [("channel", .str (requestChannel word request)), ("text", .str request)]
      "User asked to post to Slack.").map fun action => [action]
  else do
    let sends ← proposeIf low request reg SEND_KEYWORDS "send_email" (freshId 0)
      [("to", .str ((findEmail word request).getD "recipient@example.com")),
        ("subject", .str "Message from atlas"), ("body", .str request)]
      "User asked to send a message."
    let searches ← proposeIf low request reg SEARCH_KEYWORDS "search" (freshId 1)
      [("query", .str request)] "User asked to find information."
    return sends ++ searches

end plan

/-- The registered tool takes the arguments of an action again as they are. -/
def TakenAgain (reg : ToolRegistry σ) (a : ProposedAction) : Prop :=
  ∃ tool, reg.get a.tool = .ok tool ∧ tool.argsSchema a.args = .ok a.args

/-- A plan is made, and the tools take the arguments of its actions again. -/
def PlanValid (reg : ToolRegistry σ) (plan : Except PyError (List ProposedAction)) : Prop :=
  ∃ actions, plan = .ok actions ∧ ∀ a ∈ actions, TakenAgain reg a

/-! ### What the patterns find -/

section found
variable {word : WordChars}

theorem wordOr_not_space {extra : List Char} (hextra : extra.all (!isSpace ·) = true) {c : Char}
    (h : wordOr word extra c = true) : isSpace c = false := by
  rw [wordOr, Bool.or_eq_true, List.contains_iff_mem] at h
  rcases h with h | h
  · exact word.not_space c h
  · simpa using List.all_eq_true.mp hextra c h

theorem wordOr_not_at {extra : List Char} (hextra : '@' ∉ extra) : wordOr word extra '@' = false := by
  rw [wordOr, word.not_at, Bool.false_or, List.contains_eq_mem]
  exact decide_eq_false hextra

/-- A class that takes neither white space nor `@` takes the part of an address. -/
theorem addressPart_of_wordOr {extra span : List Char} (hextra : extra.all (!isSpace ·) = true)
    (hat : '@' ∉ extra) (h : ∀ c ∈ span, wordOr word extra c = true) :
    ∀ c ∈ span, isSpace c = false ∧ c ≠ '@' := by
  intro c hc
  refine ⟨wordOr_not_space hextra (h c hc), ?_⟩
  rintro rfl
  exact absurd (h _ hc) (by simp [wordOr_not_at hat])

theorem wellFormedRecipient_append {localPart domain : List Char} (hlocal : localPart ≠ [])
    (hdomain : domain ≠ []) (hlocalPart : ∀ c ∈ localPart, isSpace c = false ∧ c ≠ '@')
    (hdomainPart : ∀ c ∈ domain, isSpace c = false ∧ c ≠ '@') :
    wellFormedRecipient (String.ofList (localPart ++ '@' :: domain)) = true := by
  have hsingle : ∀ {part : List Char}, (∀ c ∈ part, isSpace c = false ∧ c ≠ '@') →
      part.splitOnP (· == '@') = [part] :=
    fun hpart => List.splitOnP_eq_singleton fun c hc => by simpa using (hpart c hc).2
  have hsplit : splitOn (· == '@') (String.ofList (localPart ++ '@' :: domain)) =
      [String.ofList localPart, String.ofList domain] := by
    rw [splitOn, String.toList_ofList, List.splitOnP_append_cons _ _ (by decide), hsingle hlocalPart,
      hsingle hdomainPart]
    rfl
  rw [wellFormedRecipient, hsplit]
  simp only [Bool.and_eq_true, bne_iff_ne, String.toList_ofList, List.all_eq_true, Bool.not_eq_true']
  refine ⟨⟨⟨?_, ?_⟩, fun c hc => (hlocalPart c hc).1⟩, fun c hc => (hdomainPart c hc).1⟩
  · simpa using hlocal
  · simpa using hdomain

/-- A found email is well formed, and not shorter than the shortest recipient. -/
theorem wellFormed_of_findEmail {request email : String} (h : findEmail word request = some email) :
    wellFormedRecipient email = true ∧ 3 ≤ email.length := by
  obtain ⟨spans, hspans, rfl⟩ := Option.map_eq_some_iff.mp h
  obtain ⟨hmatches, -⟩ := search_eq_some hspans
  -- the spans are the local part, the at sign, the first label, the dot and the rest of the domain
  rcases hmatches with _ | ⟨⟨hlocal, hlocalPart⟩, hmatches⟩
  rcases hmatches with _ | ⟨⟨at', rfl, hat⟩, hmatches⟩
  rcases hmatches with _ | ⟨⟨hlabel, hlabelPart⟩, hmatches⟩
  rcases hmatches with _ | ⟨⟨dot, rfl, hdot⟩, hmatches⟩
  rcases hmatches with _ | ⟨⟨-, hrestPart⟩, hmatches⟩
  rcases hmatches with _ | _
  rename_i localPart label rest
  obtain rfl : at' = '@' := by simpa using hat
  obtain rfl : dot = '.' := by simpa using hdot
  have hflatten : [localPart, ['@'], label, ['.'], rest].flatten =
      localPart ++ '@' :: (label ++ '.' :: rest) := by simp
  rw [hflatten]
  constructor
  · refine wellFormedRecipient_append hlocal (by simp)
      (addressPart_of_wordOr (by decide) (by decide) hlocalPart) ?_
    rw [List.forall_mem_append, List.forall_mem_cons]
    exact ⟨addressPart_of_wordOr (by decide) (by decide) hlabelPart, by decide,
      addressPart_of_wordOr (by decide) (by decide) hrestPart⟩
  · have hpos := List.length_pos_of_ne_nil hlocal
    rw [String.length_ofList]
    simp only [List.length_append, List.length_cons]
    omega

/-- A part of the text is one that the pattern of an email takes. -/
def HoldsEmail (word : WordChars) (request : String) : Prop :=
  ∃ spans, Matches (EMAIL_RE word) spans ∧ spans.flatten <:+: request.toList

theorem isNone_findEmail {request : String} :
    (findEmail word request).isNone = true ↔ ¬HoldsEmail word request := by
  rw [HoldsEmail, ← isSome_search_iff, findEmail, Option.isNone_map, ← Option.not_isSome, Bool.not_eq_true']
  exact (Bool.not_eq_true _).symm.to_iff

theorem at_mem_of_holdsEmail {request : String} (h : HoldsEmail word request) : '@' ∈ request.toList := by
  obtain ⟨spans, hmatches, hpart⟩ := h
  rcases hmatches with _ | ⟨-, hmatches⟩
  rcases hmatches with _ | ⟨⟨at', rfl, hat⟩, -⟩
  obtain rfl : at' = '@' := by simpa using hat
  exact hpart.subset (by simp)

/-- A found channel has no white space. -/
theorem findChannel_eq_some {request name : String} (h : findChannel word request = some name) :
    ∀ c ∈ name.toList, isSpace c = false := by
  obtain ⟨spans, hspans, rfl⟩ := Option.map_eq_some_iff.mp h
  obtain ⟨hmatches, -⟩ := search_eq_some hspans
  rcases hmatches with _ | ⟨-, hmatches⟩
  rcases hmatches with _ | ⟨⟨-, hname⟩, -⟩
  intro c hc
  rw [List.getD_cons_succ, List.getD_cons_zero, String.toList_ofList] at hc
  exact wordOr_not_space (by decide) (hname c hc)

end found

/-! ### What the tools take -/

section tools
variable {casing : Casing} {coerce : String → Json → Except String Json}

theorem exists_searchArgs {query : String} (hquery : query ≠ "") :
    ∃ values, searchArgs coerce [("query", .str query)] = .ok values := by
  simp only [searchArgs, modelValidate_eq_after]
  refine exists_modelValidateAfter_iff.mpr ?_
  rw [List.forall_mem_singleton]
  exact (exists_check_str_iff rfl rfl).mpr ⟨one_le_length_iff.mpr hquery, rfl, _, rfl⟩

theorem exists_emailArgs {title recipient subject body : String}
    (hformed : wellFormedRecipient recipient = true) (hlength : 3 ≤ recipient.length) :
    ∃ values, emailArgs coerce title
      [("to", .str recipient), ("subject", .str subject), ("body", .str body)] = .ok values := by
  refine exists_modelValidateAfter_iff.mpr ?_
  simp only [emailFields, List.forall_mem_cons]
  refine ⟨?_, ?_, ?_, by simp⟩
  · refine (exists_check_str_iff rfl rfl).mpr ⟨hlength, rfl, .str recipient, ?_⟩
    simp only [requireWellFormedAddress, validatedRecipient, hformed, if_true]
  · exact (exists_check_str_iff rfl rfl).mpr ⟨Nat.zero_le _, rfl, _, rfl⟩
  · exact (exists_check_str_iff rfl rfl).mpr ⟨Nat.zero_le _, rfl, _, rfl⟩

/-- A hash before a name without white space leaves nothing to strip. -/
theorem strip_hash {name : String} (hname : ∀ c ∈ name.toList, isSpace c = false) :
    strip ("#" ++ name) = "#" ++ name := by
  refine strip_of_no_space ?_
  rw [String.toList_append, List.forall_mem_append]
  exact ⟨by simp [isSpace], hname⟩

/-- A post to a named channel is accepted if its text is not too long. -/
theorem exists_slackPostArgs_iff {name text : String} (hname : ∀ c ∈ name.toList, isSpace c = false)
    (htext : text ≠ "") :
    (∃ values, slackPostArgs casing coerce [("channel", .str ("#" ++ name)), ("text", .str text)] =
      .ok values) ↔ text.length ≤ slackMaxTextChars := by
  have hchannel : ∃ value, FieldDef.check coerce (channelValidator casing)
      { name := "channel", minLength := some 1 } (some (.str ("#" ++ name))) = .ok value := by
    refine (exists_check_str_iff rfl rfl).mpr ⟨?_, rfl, .str ("#" ++ casing.lower name), ?_⟩
    · rw [String.length_append]
      exact Nat.le_add_right 1 _
    · rw [channelValidator_channel]
      exact rejectNonChannelTargets_hash (strip_hash hname)
  refine exists_modelValidateAfter_iff.trans ?_
  simp only [slackPostFields, List.forall_mem_cons]
  constructor
  · rintro ⟨-, htextField, -⟩
    obtain ⟨-, hmax, -⟩ := (exists_check_str_iff rfl rfl).mp htextField
    simpa using hmax
  · intro hle
    refine ⟨hchannel, ?_, by simp⟩
    exact (exists_check_str_iff rfl rfl).mpr ⟨one_le_length_iff.mpr htext, by simpa using hle, _, rfl⟩

end tools

/-! ### Plans -/

section plans
variable {reg : ToolRegistry ToolWorld} {casing : Casing} {coerce : String → Json → Except String Json}
  {backends : Backends}

/-- What a standard tool takes has a permission. -/
theorem exists_permissionFor {tool : BaseTool ToolWorld} (htool : tool ∈ standardTools casing coerce backends)
    {args values : Args} (h : tool.argsSchema args = .ok values) :
    ∃ permission, tool.permissionFor values = .ok permission := by
  have hresource : ∃ resource, tool.resourcePermission values = .ok resource := by
    have hemail : ∀ {title}, emailArgs coerce title args = .ok values →
        ∃ resource, domainPermission casing title values = .ok resource := by
      intro title hvalid
      obtain ⟨recipient, -, hto, -⟩ := recipient_of_emailArgs hvalid
      exact ⟨_, by rw [domainPermission, hto]⟩
    simp only [standardTools, List.mem_cons, List.not_mem_nil, or_false] at htool
    rcases htool with rfl | rfl | rfl | rfl | rfl | rfl
    · exact ⟨_, rfl⟩
    · exact hemail h
    · obtain ⟨-, channel, -, -, -, hchannel⟩ := channel_of_slackPostArgs h
      have hpermission : channelPermission casing values =
          .ok (some (slackChannelResourceSegment casing.lower channel)) := by
        rw [channelPermission, hchannel]
      exact ⟨_, hpermission⟩
    · exact hemail h
    · exact ⟨_, rfl⟩
    · exact ⟨_, rfl⟩
  obtain ⟨resource, hresource⟩ := hresource
  rw [BaseTool.permissionFor, hresource]
  exact ⟨_, rfl⟩

/-- A proposal of a standard tool is made if the tool takes the arguments, and then it takes them again. -/
theorem planValid_propose_iff {tool : BaseTool ToolWorld}
    (htool : tool ∈ standardTools casing coerce backends) (hget : reg.get tool.name = .ok tool) {args : Args}
    (hblank : ¬(tool.name = "slack_post" ∧ BlankChannel args)) (actionId rationale : String) :
    PlanValid reg ((reg.propose actionId tool.name args rationale).map fun action => [action]) ↔
      ∃ values, tool.argsSchema args = .ok values := by
  constructor
  · rintro ⟨actions, hplan, -⟩
    obtain ⟨action, hpropose, -⟩ := Fallible.map_eq_ok.mp hplan
    obtain ⟨t, ht, -, -, -, hvalid, -⟩ := ToolRegistry.propose_eq_ok hpropose
    rw [hget] at ht
    cases ht
    exact ⟨_, hvalid⟩
  · rintro ⟨values, hvalid⟩
    obtain ⟨permission, hpermission⟩ := exists_permissionFor htool hvalid
    have hagain := (standardTools_revalidate_iff htool hvalid).mpr hblank
    simp only [ToolRegistry.propose, hget, hvalid, hpermission, Fallible.ok_bind]
    refine ⟨_, rfl, ?_⟩
    rw [List.forall_mem_singleton]
    exact ⟨tool, hget, hagain⟩

/-- The actions of one intent are valid if its tool takes the arguments. -/
theorem planValid_proposeIf {low : Lowering} {request : String} {tool : BaseTool ToolWorld}
    (htool : tool ∈ standardTools casing coerce backends) (hget : reg.get tool.name = .ok tool) {args : Args}
    (hblank : ¬(tool.name = "slack_post" ∧ BlankChannel args))
    (hvalid : ∃ values, tool.argsSchema args = .ok values) (keywords : List String)
    (actionId rationale : String) :
    PlanValid reg (proposeIf low request reg keywords tool.name actionId args rationale) := by
  rw [proposeIf]
  split
  next => exact (planValid_propose_iff htool hget hblank actionId rationale).mpr hvalid
  next => exact ⟨[], rfl, by simp⟩

theorem planValid_append {first second : Except PyError (List ProposedAction)} (hfirst : PlanValid reg first)
    (hsecond : PlanValid reg second) : PlanValid reg (do return (← first) ++ (← second)) := by
  obtain ⟨actions, rfl, hactions⟩ := hfirst
  obtain ⟨more, rfl, hmore⟩ := hsecond
  exact ⟨actions ++ more, rfl, List.forall_mem_append.mpr ⟨hactions, hmore⟩⟩

end plans

section strategy
variable {word : WordChars} {request : String}

/-- The channel of a request is a hash and a name without white space. -/
theorem requestChannel_eq (word : WordChars) (request : String) :
    ∃ name, requestChannel word request = "#" ++ name ∧ ∀ c ∈ name.toList, isSpace c = false := by
  rw [requestChannel]
  split
  next name hname => exact ⟨name, rfl, findChannel_eq_some hname⟩
  next => exact ⟨"general", rfl, by simp [isSpace]⟩

/-- The recipient of a request is well formed, found or not. -/
theorem requestRecipient_wellFormed (word : WordChars) (request : String) :
    wellFormedRecipient ((findEmail word request).getD "recipient@example.com") = true ∧
      3 ≤ ((findEmail word request).getD "recipient@example.com").length := by
  cases hemail : findEmail word request with
  | none => decide
  | some email => exact wellFormed_of_findEmail hemail

theorem asksForPost_iff {reg : ToolRegistry σ} {low : Lowering} {tool : BaseTool σ}
    (hget : reg.get "slack_post" = .ok tool) :
    asksForPost word low request reg = true ↔
      occursIn "slack" (low.lower request) = true ∧ ¬HoldsEmail word request := by
  rw [asksForPost, contains_names_of_get hget, Bool.and_true, Bool.and_eq_true, isNone_findEmail]
  simp [mentions, SLACK_KEYWORDS]

variable {casing : Casing} {coerce : String → Json → Except String Json} {backends : Backends}
  {reg : ToolRegistry ToolWorld} {freshId : ℕ → String}

/-- A Slack post is planned if the request is not too long to be posted. -/
theorem planValid_of_post_iff
    (htools : ∀ tool ∈ standardTools casing coerce backends, reg.get tool.name = .ok tool)
    (hrequest : request ≠ "") (hpost : asksForPost word casing.toLowering request reg = true) :
    PlanValid reg (heuristicPlan word casing.toLowering freshId request reg) ↔
      request.length ≤ slackMaxTextChars := by
  obtain ⟨name, hchannel, hname⟩ := requestChannel_eq word request
  have hblank : ¬BlankChannel [("channel", .str ("#" ++ name)), ("text", .str request)] := by
    rintro ⟨channel, hfield, hstrip⟩
    cases hfield
    rw [strip_hash hname] at hstrip
    simp at hstrip
  have hiff := planValid_propose_iff slackPostTool_mem (htools _ slackPostTool_mem) (fun h => hblank h.2)
    (freshId 0) "User asked to post to Slack."
  rw [heuristicPlan, if_pos hpost, hchannel]
  exact hiff.trans (exists_slackPostArgs_iff hname hrequest)

/-- Any other request is planned. -/
theorem planValid_of_not_post
    (htools : ∀ tool ∈ standardTools casing coerce backends, reg.get tool.name = .ok tool)
    (hrequest : request ≠ "") (hpost : asksForPost word casing.toLowering request reg ≠ true) :
    PlanValid reg (heuristicPlan word casing.toLowering freshId request reg) := by
  obtain ⟨hformed, hlength⟩ := requestRecipient_wellFormed word request
  rw [heuristicPlan, if_neg hpost]
  refine planValid_append ?_ ?_
  · exact planValid_proposeIf sendEmailTool_mem (htools _ sendEmailTool_mem) (by simp [sendEmailTool])
      (exists_emailArgs hformed hlength) SEND_KEYWORDS (freshId 0) _
  · have hsearch : searchTool coerce ∈ standardTools casing coerce backends := searchTool_mem
    exact planValid_proposeIf hsearch (htools _ hsearch) (by simp [searchTool])
      (exists_searchArgs hrequest) SEARCH_KEYWORDS (freshId 1) _

/-- The plan for a request that is not empty is made and holds arguments that its tools take again, unless
    it mentions Slack, has no email in it and is longer than a post may be. -/
theorem heuristicPlan_valid_iff (word : WordChars) (casing : Casing)
    (coerce : String → Json → Except String Json) (backends : Backends) (reg : ToolRegistry ToolWorld)
    (hreg : standardRegistry casing coerce backends = .ok reg) (freshId : ℕ → String) (request : String)
    (hrequest : request ≠ "") :
    PlanValid reg (heuristicPlan word casing.toLowering freshId request reg) ↔
      ¬(occursIn "slack" (casing.lower request) = true ∧ ¬HoldsEmail word request ∧
        slackMaxTextChars < request.length) := by
  obtain ⟨htools, -⟩ := get_of_registerAll hreg
  have hget : reg.get "slack_post" = .ok (slackPostTool casing coerce backends) :=
    htools _ slackPostTool_mem
  rw [← and_assoc, ← asksForPost_iff hget]
  by_cases hpost : asksForPost word casing.toLowering request reg = true
  · rw [planValid_of_post_iff htools hrequest hpost]
    simp [hpost]
  · exact iff_of_true (planValid_of_not_post htools hrequest hpost) fun h => hpost h.1

end strategy

/-! ### Two requests -/

/-- Letters, digits and the underscore of ASCII. -/
def asciiWord : WordChars where
  isWord c := c.isAlphanum || c == '_'
  not_space c h := by
    have hrange : 48 ≤ c.toNat ∧ c.toNat ≤ 122 := by
      simp only [Char.isAlphanum, Char.isAlpha, Char.isUpper, Char.isLower, Char.isDigit, Bool.or_eq_true,
        Bool.and_eq_true, decide_eq_true_eq, beq_iff_eq, UInt32.le_iff_toNat_le] at h
      rcases h with ((h | h) | h) | rfl
      · exact ⟨le_trans (by decide) h.1, le_trans h.2 (by decide)⟩
      · exact ⟨le_trans (by decide) h.1, le_trans h.2 (by decide)⟩
      · exact ⟨le_trans (by decide) h.1, le_trans h.2 (by decide)⟩
      · decide
    simp only [isSpace, Bool.or_eq_false_iff, Bool.and_eq_false_iff, decide_eq_false_iff_not,
      beq_eq_false_iff_ne]
    omega
  not_at := by decide

/-- The standard tools without backends. -/
def plainRegistry : ToolRegistry ToolWorld :=
  (standardRegistry asciiCasing stringsOnly {}).toOption.getD .empty

theorem standardRegistry_plain : standardRegistry asciiCasing stringsOnly {} = .ok plainRegistry := rfl

theorem heuristicPlan_valid_slack :
    PlanValid plainRegistry
      (heuristicPlan asciiWord asciiCasing.toLowering Nat.repr "post to slack" plainRegistry) :=
  (heuristicPlan_valid_iff asciiWord asciiCasing stringsOnly {} plainRegistry standardRegistry_plain Nat.repr
    "post to slack" (by decide)).mpr fun h => absurd h.2.2 (by decide)

/-- A request that mentions Slack and has no address, longer than a post may be. -/
def longRequest : String := "slack" ++ String.ofList (List.replicate slackMaxTextChars 'x')

theorem toList_longRequest : longRequest.toList = "slack".toList ++ List.replicate slackMaxTextChars 'x' :=
  String.toList_append.trans (congrArg _ String.toList_ofList)

/-- It makes the planner fail. -/
theorem not_heuristicPlan_valid : ¬∀ (word : WordChars) (casing : Casing)
    (coerce : String → Json → Except String Json) (backends : Backends) (reg : ToolRegistry ToolWorld),
    standardRegistry casing coerce backends = .ok reg → ∀ (freshId : ℕ → String) (request : String),
      request ≠ "" → PlanValid reg (heuristicPlan word casing.toLowering freshId request reg) := by
  intro h
  have hlength : longRequest.length = 5 + slackMaxTextChars := by
    rw [← String.length_toList, toList_longRequest, List.length_append, List.length_replicate]
    rfl
  have hne : longRequest ≠ "" := by
    rw [← one_le_length_iff, hlength]
    omega
  obtain ⟨htools, -⟩ := get_of_registerAll standardRegistry_plain
  have hpost : asksForPost asciiWord asciiCasing.toLowering longRequest plainRegistry = true := by
    have hget := htools _ slackPostTool_mem
    refine (asksForPost_iff hget).mpr ⟨?_, ?_⟩
    · have hlower : (asciiCasing.lower longRequest).toList = longRequest.toList.map Char.toLower :=
        String.toList_ofList
      have hslack : "slack".toList.map Char.toLower = "slack".toList := by decide
      rw [occursIn_iff_isInfix, hlower, toList_longRequest, List.map_append, hslack]
      exact (List.prefix_append _ _).isInfix
    · intro hemail
      have hat := at_mem_of_holdsEmail hemail
      rw [toList_longRequest, List.mem_append] at hat
      rcases hat with hat | hat
      · exact absurd hat (by decide)
      · exact absurd (List.eq_of_mem_replicate hat) (by decide)
  have hvalid :=
    h asciiWord asciiCasing stringsOnly {} plainRegistry standardRegistry_plain Nat.repr longRequest hne
  rw [planValid_of_post_iff htools hne hpost, hlength] at hvalid
  omega

end Atlas
