import Atlas.Orchestration.Revalidation

/-! Permissions that name a resource. A post is stamped with its channel and a mail with the domain of its
    recipient, each computed from the stored arguments by a normalisation of its own; what is handed to
    the sender comes from the arguments as a later run validates them. The two name the same resource:
    a grant for one channel or one domain lets messages through to that channel or that domain only. -/

namespace Atlas

open Text

/-! ### Grants without a wildcard -/

/-- A grant without a wildcard is satisfied by itself only. -/
theorem satisfied_exact_iff {g required : String} (hwildcard : g ≠ WILDCARD)
    (hsuffix : hasSuffix ":*" g = false) : permissionSatisfied [g] required = true ↔ g = required := by
  rw [permissionSatisfied_iff]
  simp only [List.mem_singleton, exists_eq_left, coverage, Set.mem_ofPred_eq, hwildcard, false_or]
  refine or_iff_left ?_
  rintro ⟨p, t, rfl, -⟩
  rw [hasSuffix_iff.mpr ⟨p, rfl⟩] at hsuffix
  cases hsuffix

/-! ### What an action hands over -/

section handed
variable {M : Type}

/-- Whatever running an action adds to a record of the world is as `names` says. -/
def HandsOnly (reg : ToolRegistry ToolWorld) (a : ProposedAction) (record : ToolWorld → List M)
    (names : M → Prop) : Prop :=
  ∀ principal w, ∃ sent, record (reg.execute a principal w).2 = record w ++ sent ∧ ∀ m ∈ sent, names m

/-- Where a record does not change, nothing was added to it. -/
theorem hands_nothing {l : List M} {names : M → Prop} : ∃ sent, l = l ++ sent ∧ ∀ m ∈ sent, names m :=
  ⟨[], (List.append_nil l).symm, by simp⟩

/-- An action the registry accepts for a tool. -/
def Proposed (reg : ToolRegistry ToolWorld) (name : String) (a : ProposedAction) : Prop :=
  ∃ actionId args rationale, reg.propose actionId name args rationale = .ok a

/-- The actions of a tool stay within what their permissions name: a grant without a wildcard that satisfies
    the stamped permission is the stem with one resource, which is all the action reaches, and actions
    with one permission reach one resource. -/
structure Scoped (reg : ToolRegistry ToolWorld) (name stem : String) (record : ToolWorld → List M)
    (names : String → M → Prop) : Prop where
  grant : ∀ a, Proposed reg name a → ∀ g, g ≠ WILDCARD → hasSuffix ":*" g = false →
    (∃ required, a.requiredPermission = some required ∧ permissionSatisfied [g] required = true) →
    ∃ resource, g = stem ++ resource ∧ HandsOnly reg a record (names resource)
  equal : ∀ a b, Proposed reg name a → Proposed reg name b → a.requiredPermission = b.requiredPermission →
    ∃ resource, HandsOnly reg a record (names resource) ∧ HandsOnly reg b record (names resource)

/-- It is enough that every action is stamped with the one resource it reaches. -/
theorem scoped_of_stamped {reg : ToolRegistry ToolWorld} {name stem : String} {record : ToolWorld → List M}
    {names : String → M → Prop} (h : ∀ a, Proposed reg name a → ∃ resource,
      a.requiredPermission = some (stem ++ resource) ∧ HandsOnly reg a record (names resource)) :
    Scoped reg name stem record names where
  grant := by
    rintro a ha g hwildcard hsuffix ⟨required, hrequired, hsatisfied⟩
    obtain ⟨resource, hstamped, hhands⟩ := h a ha
    rw [hrequired, Option.some.injEq] at hstamped
    rw [satisfied_exact_iff hwildcard hsuffix] at hsatisfied
    exact ⟨resource, hsatisfied.trans hstamped, hhands⟩
  equal := by
    intro a b ha hb hequal
    obtain ⟨resource, hstamped, hhands⟩ := h a ha
    obtain ⟨resource', hstamped', hhands'⟩ := h b hb
    rw [hstamped, hstamped', Option.some.injEq, String.append_right_inj] at hequal
    exact ⟨resource, hhands, hequal ▸ hhands'⟩

/-- What an action hands over, its run does, on the arguments as validated for it. -/
theorem handsOnly_of_run {reg : ToolRegistry ToolWorld} {a : ProposedAction} {tool : BaseTool ToolWorld}
    {record : ToolWorld → List M} {names : M → Prop} (hget : reg.get a.tool = .ok tool)
    (hrun : ∀ args, tool.argsSchema a.args = .ok args → ∀ principal w, ∃ sent,
      record (tool.run args principal w).2 = record w ++ sent ∧ ∀ m ∈ sent, names m) :
    HandsOnly reg a record names := by
  intro principal w
  rw [ToolRegistry.execute]
  split
  next => exact hands_nothing
  next t args hresolve =>
    obtain ⟨hgot, hargs⟩ := ToolRegistry.resolve_eq_ok.mp hresolve
    rw [hget] at hgot
    cases hgot
    have hsent := hrun args hargs principal w
    split
    next hw => rwa [hw] at hsent
    next hw => rwa [hw] at hsent

end handed

/-- Base permission, kind of resource and resource. -/
theorem stem_append {base kind stem : String} (h : base ++ ":" ++ kind = stem) (resource : String) :
    base ++ ":" ++ (kind ++ resource) = stem ++ resource := by
  rw [← String.append_assoc, h]

section tools
variable {casing : Casing} {coerce : String → Json → Except String Json} {backends : Backends}
  {reg : ToolRegistry ToolWorld}

/-! ### Posts -/

/-- The channel of a resource segment, under either of its spellings. -/
def ChannelNamed (c : String) (m : SlackMessage) : Prop := m.channel = c ∨ m.channel = "#" ++ c

/-- A channel the validator yields stands for one segment, and is it up to a leading hash. -/
theorem segment_of_rejectNonChannelTargets {value channel : String}
    (h : rejectNonChannelTargets casing value = .ok (.str channel)) : ∃ c,
      slackChannelResourceSegment casing.lower channel = "channel:" ++ c ∧
        (channel = c ∨ channel = "#" ++ c) := by
  simp only [rejectNonChannelTargets, Fallible.ite_error_eq_ok] at h
  obtain ⟨-, -, h⟩ := h
  split at h
  next =>
    cases h
    refine ⟨casing.lower (dropChars 1 (strip value)), ?_, Or.inr rfl⟩
    have hrest : ∀ t, dropChars 1 ("#" ++ t) = t := dropChars_append "#"
    rw [slackChannelResourceSegment, if_pos (hasPrefix_append _ _), hrest, casing.lower_lower]
  next hname =>
    cases h
    exact ⟨strip value, if_neg hname, Or.inl rfl⟩

/-- Validated again, the arguments of a post keep their channel. -/
theorem channel_kept {args values again : Args} (h : slackPostArgs casing coerce args = .ok values)
    (hagain : slackPostArgs casing coerce values = .ok again) :
    Json.field? "channel" again = Json.field? "channel" values := by
  obtain ⟨value, channel, -, -, hreject, hchannel⟩ := channel_of_slackPostArgs h
  obtain ⟨stored, channel', hstored, -, hreject', hchannel'⟩ := channel_of_slackPostArgs hagain
  obtain ⟨_, heq, hself, -⟩ := rejectNonChannelTargets_eq_ok hreject
  cases heq
  rw [hchannel] at hstored
  cases hstored
  rw [hself] at hreject'
  cases hreject'
  rw [hchannel, hchannel']

/-- A run posts to the channel of its arguments. -/
theorem slackPostRun_posts (backends : Backends) {args : Args} {channel : String}
    (h : Json.field? "channel" args = some (.str channel)) (principal : Principal) (w : ToolWorld) :
    ∃ sent, (slackPostRun backends args principal w).2.posts = w.posts ++ sent ∧
      ∀ m ∈ sent, m.channel = channel := by
  rw [slackPostRun, h]
  split
  next text hchannel htext =>
    cases hchannel
    cases backends.slack with
    | none => exact hands_nothing
    | some post => exact ⟨[⟨_, text⟩], rfl, by simp⟩
  next => exact hands_nothing

theorem post_stamped (hget : reg.get "slack_post" = .ok (slackPostTool casing coerce backends))
    (a : ProposedAction) (h : Proposed reg "slack_post" a) : ∃ c,
      a.requiredPermission = some ("tool:slack:post:channel:" ++ c) ∧
        HandsOnly reg a ToolWorld.posts (ChannelNamed c) := by
  obtain ⟨actionId, args, rationale, hpropose⟩ := h
  obtain ⟨tool, htool, -, hname, -, hvalid, hpermission⟩ := ToolRegistry.propose_eq_ok hpropose
  rw [hget] at htool
  cases htool
  obtain ⟨value, channel, -, -, hreject, hchannel⟩ := channel_of_slackPostArgs hvalid
  obtain ⟨c, hsegment, hnamed⟩ := segment_of_rejectNonChannelTargets hreject
  refine ⟨c, ?_, handsOnly_of_run (hname ▸ hget) fun again hargs principal w => ?_⟩
  · have hresource : channelPermission casing a.args = .ok (some ("channel:" ++ c)) := by
      rw [channelPermission, hchannel, ← hsegment]
    have hstamped : (slackPostTool casing coerce backends).permissionFor a.args =
        .ok (some ("tool:slack:post" ++ ":" ++ ("channel:" ++ c))) := by
      rw [BaseTool.permissionFor]
      exact congrArg (Except.map _) hresource
    rw [hpermission, Except.ok.injEq] at hstamped
    rw [hstamped, Option.some.injEq]
    exact stem_append (by decide) c
  · have hkept := (channel_kept hvalid hargs).trans hchannel
    obtain ⟨sent, hsent, hto⟩ := slackPostRun_posts backends hkept principal w
    refine ⟨sent, hsent, fun m hm => ?_⟩
    rw [ChannelNamed, hto m hm]
    exact hnamed

/-! ### Mails -/

/-- A recipient at a domain, whatever its case. -/
def AtDomain (casing : Casing) (d recipient : String) : Prop :=
  afterLastAt recipient ≠ "" ∧ casing.lower (afterLastAt recipient) = d

/-- A well-formed recipient has a domain. -/
theorem afterLastAt_ne {recipient : String} (h : wellFormedRecipient recipient = true) :
    afterLastAt recipient ≠ "" := by
  unfold wellFormedRecipient at h
  split at h
  next localPart domain hsplit =>
    simp only [Bool.and_eq_true, bne_iff_ne] at h
    rw [splitOn] at hsplit
    by_cases hat : '@' ∈ recipient.toList
    · rw [afterLastAt, rsplit?, if_pos hat]
      intro hempty
      have hnil : recipient.toList.rtakeWhile (· != '@') = [] := by
        simpa using congrArg String.toList hempty
      have hne : recipient.toList ≠ [] := List.ne_nil_of_mem hat
      have hlast : recipient.toList.getLast hne = '@' := by
        simpa using List.rtakeWhile_eq_nil_iff.mp hnil hne
      -- an address that ends with `@` has an empty last part
      rw [← List.dropLast_append_getLast hne, hlast, List.splitOnP_append_cons _ _ (by decide),
        List.map_append, List.splitOnP_nil] at hsplit
      have hdomain := congrArg List.getLast? hsplit
      rw [List.map_singleton, List.getLast?_concat] at hdomain
      exact h.1.1.2 (Option.some.inj hdomain).symm
    · rw [List.splitOnP_eq_singleton] at hsplit
      · cases hsplit
      · intro c hc
        simpa using fun hat' : c = '@' => hat (hat' ▸ hc)
  next => cases h

theorem requireWellFormedAddress_to {recipient : String} {v : Json}
    (h : requireWellFormedAddress "to" (.str recipient) = .ok v) :
    wellFormedRecipient recipient = true ∧ v = .str recipient := by
  simp only [requireWellFormedAddress, validatedRecipient] at h
  split at h
  next hformed => exact ⟨hformed, (Except.ok.inj h).symm⟩
  next => cases h

/-- Validated arguments hold the well-formed recipient they were given, and keep it when validated again. -/
theorem recipient_of_emailArgs {title : String} {args values : Args}
    (h : emailArgs coerce title args = .ok values) : ∃ recipient, wellFormedRecipient recipient = true ∧
      Json.field? "to" values = some (.str recipient) ∧
      ∀ again, emailArgs coerce title values = .ok again →
        Json.field? "to" again = some (.str recipient) := by
  have hfield : ∀ {args values : Args}, emailArgs coerce title args = .ok values → ∃ recipient,
      Json.field? "to" (args ++ [("subject", .str ""), ("body", .str "")]) = some (.str recipient) ∧
      wellFormedRecipient recipient = true ∧ Json.field? "to" values = some (.str recipient) := by
    intro args values hvalid
    obtain ⟨v, hv, hcheck⟩ := field?_of_valid (by decide) hvalid List.mem_cons_self
    obtain ⟨declared, hdeclared, hw⟩ := check_eq_ok.mp hcheck
    obtain ⟨recipient, hrecipient, hlength⟩ := (validate_str_eq_ok rfl rfl).mp hdeclared
    obtain ⟨-, -, rfl⟩ := checkLength_eq_ok.mp hlength
    obtain ⟨hformed, rfl⟩ := requireWellFormedAddress_to hw
    exact ⟨recipient, hrecipient, hformed, hv⟩
  obtain ⟨recipient, -, hformed, hto⟩ := hfield h
  refine ⟨recipient, hformed, hto, fun again hagain => ?_⟩
  obtain ⟨stored, hstored, -, hto'⟩ := hfield hagain
  rw [Json.field?, List.lookup_append, ← Json.field?, hto, Option.some_or] at hstored
  cases hstored
  exact hto'

/-- An action of a tool that mails is stamped with the domain that its recipient is at. -/
theorem mail_stamped (tool : BaseTool ToolWorld) {title stem : String} {M : Type}
    {record : ToolWorld → List M} {recipientOf : M → String} (hget : reg.get tool.name = .ok tool)
    (hschema : tool.argsSchema = emailArgs coerce title)
    (hresource : tool.resourcePermission = domainPermission casing title)
    (hstem : ∃ base, tool.requiredPermission = some base ∧ base ++ ":" ++ "domain:" = stem)
    (hrun : ∀ args recipient, Json.field? "to" args = some (.str recipient) → ∀ principal w, ∃ sent,
      record (tool.run args principal w).2 = record w ++ sent ∧ ∀ m ∈ sent, recipientOf m = recipient)
    (a : ProposedAction) (h : Proposed reg tool.name a) : ∃ d, a.requiredPermission = some (stem ++ d) ∧
      HandsOnly reg a record fun m => AtDomain casing d (recipientOf m) := by
  obtain ⟨actionId, args, rationale, hpropose⟩ := h
  obtain ⟨t, htool, -, hname, -, hvalid, hpermission⟩ := ToolRegistry.propose_eq_ok hpropose
  rw [hget] at htool
  cases htool
  rw [hschema] at hvalid
  obtain ⟨recipient, hformed, hto, hagain⟩ := recipient_of_emailArgs hvalid
  have hdomain : casing.lower (afterLastAt recipient) ≠ "" :=
    fun hempty => afterLastAt_ne hformed (casing.eq_empty_of_lower _ hempty)
  refine ⟨casing.lower (afterLastAt recipient), ?_, handsOnly_of_run (hname ▸ hget) ?_⟩
  · obtain ⟨base, hbase, hkind⟩ := hstem
    rw [BaseTool.permissionFor, hresource, domainPermission, hto, hbase] at hpermission
    simp only [recipientDomain, if_neg hdomain] at hpermission
    rw [← Except.ok.inj hpermission, combinePermission, stem_append hkind]
  · intro again hargs principal w
    rw [hschema] at hargs
    obtain ⟨sent, hsent, hrecipient⟩ := hrun again recipient (hagain again hargs) principal w
    refine ⟨sent, hsent, fun m hm => ?_⟩
    rw [hrecipient m hm]
    exact ⟨afterLastAt_ne hformed, rfl⟩

/-- A run mails the recipient of its arguments. -/
theorem sendEmailRun_emails {args : Args} {recipient : String}
    (h : Json.field? "to" args = some (.str recipient)) (principal : Principal) (w : ToolWorld) :
    ∃ sent, (sendEmailRun backends args principal w).2.emails = w.emails ++ sent ∧
      ∀ m ∈ sent, m.recipient = recipient := by
  rw [sendEmailRun, h]
  split
  next hto _ _ =>
    cases hto
    cases backends.email with
    | none => exact hands_nothing
    | some send => exact ⟨[_], rfl, by simp⟩
  next => exact hands_nothing

theorem gmailSendRun_gmails {args : Args} {recipient : String}
    (h : Json.field? "to" args = some (.str recipient)) (principal : Principal) (w : ToolWorld) :
    ∃ sent, (gmailSendRun backends args principal w).2.gmails = w.gmails ++ sent ∧
      ∀ m ∈ sent, m.1.recipient = recipient := by
  rw [gmailSendRun, h]
  split
  next hto _ _ =>
    cases hto
    split
    next =>
      split
      next => exact hands_nothing
      next => exact ⟨[_], rfl, by simp⟩
    next => exact hands_nothing
  next => exact hands_nothing

/-- Posts stay within the channel, and mails within the domain, that their permissions name. -/
theorem standardTools_scoped (casing : Casing) (coerce : String → Json → Except String Json)
    (backends : Backends) (reg : ToolRegistry ToolWorld) :
    (reg.get "slack_post" = .ok (slackPostTool casing coerce backends) →
      Scoped reg "slack_post" "tool:slack:post:channel:" ToolWorld.posts ChannelNamed) ∧
    (reg.get "send_email" = .ok (sendEmailTool casing coerce backends) →
      Scoped reg "send_email" "tool:send:domain:" ToolWorld.emails
        fun d m => AtDomain casing d m.recipient) ∧
    (reg.get "gmail_send" = .ok (gmailSendTool casing coerce backends) →
      Scoped reg "gmail_send" "tool:gmail:send:domain:" ToolWorld.gmails
        fun d m => AtDomain casing d m.1.recipient) := by
  refine ⟨fun hget => scoped_of_stamped (post_stamped hget), fun hget => scoped_of_stamped ?_,
    fun hget => scoped_of_stamped ?_⟩
  · exact mail_stamped (sendEmailTool casing coerce backends) hget rfl rfl
      ⟨_, rfl, by decide⟩ fun args recipient h => sendEmailRun_emails h
  · exact mail_stamped (gmailSendTool casing coerce backends) hget rfl rfl
      ⟨_, rfl, by decide⟩ fun args recipient h => gmailSendRun_gmails h

end tools

/-- A registry whose posts go out. -/
def announceRegistry : ToolRegistry ToolWorld :=
  soleRegistry (slackPostTool asciiCasing stringsOnly { slack := some fun _ => .ok .null })

theorem standardTools_scoped_general :
    HandsOnly announceRegistry (postAction "#general" "tool:slack:post:channel:general") ToolWorld.posts
        (ChannelNamed "general") ∧
      (announceRegistry.execute (postAction "#general" "tool:slack:post:channel:general")
        { userId := "alice" } { toSlackWorld := slackAnswers [] }).2.posts = [⟨"#general", "hi"⟩] := by
  refine ⟨?_, rfl⟩
  have hscoped := (standardTools_scoped asciiCasing stringsOnly { slack := some fun _ => .ok .null }
    announceRegistry).1 rfl
  obtain ⟨resource, hgrant, hhands⟩ := hscoped.grant
    (postAction "#general" "tool:slack:post:channel:general")
    ⟨"a1", [("channel", .str " #General "), ("text", .str "hi")], "", rfl⟩
    "tool:slack:post:channel:general" (by decide) (by decide) ⟨_, rfl, by decide⟩
  have hstem : "tool:slack:post:channel:" ++ "general" = "tool:slack:post:channel:" ++ resource := hgrant
  rw [String.append_right_inj] at hstem
  exact hstem ▸ hhands

end Atlas
