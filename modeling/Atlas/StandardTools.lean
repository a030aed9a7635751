import Atlas.Integrations.SlackUser

/-! The standard tools of the registry. Each validates its arguments by a declared model, some with a
    validator of their own that checks or rewrites a field; three stamp the resource they send to onto
    their permission: a Slack channel, or the domain of a recipient. A run hands one message to its
    backend; what was handed over is kept in the world. -/

namespace Atlas

open Text

/-! ### What is handed to the backends -/

structure EmailMessage where
  recipient : String
  subject : String := ""
  html : Option String := none
  text : Option String := none
  deriving DecidableEq, Repr

structure SlackMessage where
  channel : String
  text : String
  deriving DecidableEq, Repr

structure GmailMessage where
  recipient : String
  subject : String := ""
  text : Option String := none
  html : Option String := none
  deriving DecidableEq, Repr

structure CalendarEvent where
  summary : String
  start : String
  finish : String
  description : String := ""
  location : String := ""
  timezone : String := "UTC"
  deriving DecidableEq, Repr

/-- What the tools reach: the credential resolver, the Slack user API, and what each sender was handed,
    with the token it was handed. -/
structure ToolWorld extends SlackWorld where
  emails : List EmailMessage := []
  posts : List SlackMessage := []
  gmails : List (GmailMessage × String) := []
  events : List (CalendarEvent × String) := []

/-- The wired backends: what each answers a message, or nothing where it is not configured. -/
structure Backends where
  email : Option (EmailMessage → Except PyError Json) := none
  slack : Option (SlackMessage → Except PyError Json) := none
  gmail : Option (GmailMessage → String → Except PyError Json) := none
  calendar : Option (CalendarEvent → String → Except PyError Json) := none
  slackUser : Bool := false
  credentialResolver : Bool := false

/-! ### Search -/

def searchArgs (coerce : String → Json → Except String Json) : Args → Except PyError Args :=
  modelValidate coerce "_SearchArgs" [{ name := "query", minLength := some 1 }]

def searchRun (args : Args) (_ : Principal) (w : ToolWorld) : Except PyError Json × ToolWorld :=
  match Json.field? "query" args with
  | some (.str query) =>
    (.ok (.obj [("query", .str query),
      ("results", .arr [.str ("(mock) top result for " ++ Text.reprStr query)]),
      ("source", .str "mock-knowledge-base")]), w)
  | _ => (.error ⟨"TypeError", "expected _SearchArgs"⟩, w)

def searchTool (coerce : String → Json → Except String Json) : BaseTool ToolWorld where
  name := "search"
  riskTier := .read
  argsSchema := searchArgs coerce
  run := searchRun

/-! ### Email -/

/-- `_EMAIL_RECIPIENT_RE.fullmatch`: one `@` between two parts that are not empty and have no white space. -/
def wellFormedRecipient (value : String) : Bool :=
  match splitOn (· == '@') value with
  | [localPart, domain] =>
    localPart != "" && domain != "" && localPart.toList.all (!isSpace ·) && domain.toList.all (!isSpace ·)
  | _ => false

def validatedRecipient (value : String) : Except String Json :=
  if wellFormedRecipient value then .ok (.str value)
  else .error "Value error, recipient must be a plain email address (local@domain)"

/-- `recipient.rpartition("@")[2]`. -/
def afterLastAt (recipient : String) : String := ((rsplit? '@' recipient).map (·.2)).getD recipient

/-- The lower-cased domain, or the whole recipient where there is none. -/
def recipientDomain (casing : Casing) (recipient : String) : String :=
  let domain := casing.lower (afterLastAt recipient)
  if domain = "" then casing.lower recipient else domain

/-- The validator of the `to` field. -/
def requireWellFormedAddress (field : String) (v : Json) : Except String Json :=
  match field, v with
  | "to", .str value => validatedRecipient value
  | _, v => .ok v

/-- The fields of `_SendEmailArgs` and `_GmailSendArgs`; subject and body default to the empty text. -/
def emailFields : List FieldDef :=
  [{ name := "to", minLength := some 3 }, { name := "subject" }, { name := "body" }]

def emailArgs (coerce : String → Json → Except String Json) (title : String) (args : Args) :
    Except PyError Args :=
  modelValidateAfter coerce requireWellFormedAddress title emailFields
    (args ++ [("subject", .str ""), ("body", .str "")])

/-- `resource_permission` of the email tools. -/
def domainPermission (casing : Casing) (title : String) (args : Args) : Except PyError (Option String) :=
  match Json.field? "to" args with
  | some (.str recipient) => .ok (some ("domain:" ++ recipientDomain casing recipient))
  | _ => .error ⟨"TypeError", "expected " ++ title⟩

def sendEmailRun (backends : Backends) (args : Args) (_ : Principal) (w : ToolWorld) :
    Except PyError Json × ToolWorld :=
  match Json.field? "to" args, Json.field? "subject" args, Json.field? "body" args with
  | some (.str recipient), some (.str subject), some (.str body) =>
    match backends.email with
    | none => (.error ⟨"RuntimeError", "email not configured"⟩, w)
    | some send =>
      let message : EmailMessage := { recipient := recipient, subject := subject, text := orNone body }
      (send message, { w with emails := w.emails ++ [message] })
  | _, _, _ => (.error ⟨"TypeError", "expected _SendEmailArgs"⟩, w)

def sendEmailTool (casing : Casing) (coerce : String → Json → Except String Json) (backends : Backends) :
    BaseTool ToolWorld where
  name := "send_email"
  riskTier := .send
  requiredPermission := some "tool:send"
  argsSchema := emailArgs coerce "_SendEmailArgs"
  resourcePermission := domainPermission casing "_SendEmailArgs"
  run := sendEmailRun backends

def GOOGLE_GMAIL_SEND : String := "https://www.googleapis.com/auth/gmail.send"

def gmailSendRun (backends : Backends) (args : Args) (principal : Principal) (w : ToolWorld) :
    Except PyError Json × ToolWorld :=
  match Json.field? "to" args, Json.field? "subject" args, Json.field? "body" args with
  | some (.str recipient), some (.str subject), some (.str body) =>
    match backends.gmail, backends.credentialResolver with
    | some send, true =>
      match w.getAccessToken principal .google [GOOGLE_GMAIL_SEND] with
      | .error e => (.error e, w)
      | .ok token =>
        let message : GmailMessage := { recipient := recipient, subject := subject, text := orNone body }
        (send message token, { w with gmails := w.gmails ++ [(message, token)] })
    | _, _ => (.error ⟨"RuntimeError", "gmail not configured"⟩, w)
  | _, _, _ => (.error ⟨"TypeError", "expected _GmailSendArgs"⟩, w)

def gmailSendTool (casing : Casing) (coerce : String → Json → Except String Json) (backends : Backends) :
    BaseTool ToolWorld where
  name := "gmail_send"
  riskTier := .send
  requiredPermission := some "tool:gmail:send"
  argsSchema := emailArgs coerce "_GmailSendArgs"
  resourcePermission := domainPermission casing "_GmailSendArgs"
  run := gmailSendRun backends

/-! ### Slack -/

/-- The validator of the channel: mentions, users and direct messages are refused, a `#name` is put in
    lower case, white space at the ends is dropped. -/
def rejectNonChannelTargets (casing : Casing) (value : String) : Except String Json :=
  let stripped := strip value
  if hasPrefix "@" stripped then
    .error "Value error, channel must be a channel name or ID (C…/G…/#name); @-mentions are not allowed for slack_post"
  else if casing.upper (takeChars 1 stripped) ∈ ["U", "D"] ∧ 1 < stripped.length then
    .error "Value error, channel must be a channel name or ID (C…/G…/#name); user/DM targets are not allowed for slack_post"
  else if hasPrefix "#" stripped then .ok (.str ("#" ++ casing.lower (dropChars 1 stripped)))
  else .ok (.str stripped)

def channelValidator (casing : Casing) (field : String) (v : Json) : Except String Json :=
  match field, v with
  | "channel", .str value => rejectNonChannelTargets casing value
  | _, v => .ok v

def slackPostFields : List FieldDef :=
  [{ name := "channel", minLength := some 1 },
    { name := "text", minLength := some 1, maxLength := some slackMaxTextChars }]

def slackPostArgs (casing : Casing) (coerce : String → Json → Except String Json) :
    Args → Except PyError Args :=
  modelValidateAfter coerce (channelValidator casing) "_SlackPostArgs" slackPostFields

def channelPermission (casing : Casing) (args : Args) : Except PyError (Option String) :=
  match Json.field? "channel" args with
  | some (.str channel) => .ok (some (slackChannelResourceSegment casing.lower channel))
  | _ => .error ⟨"TypeError", "expected _SlackPostArgs"⟩

def slackPostRun (backends : Backends) (args : Args) (_ : Principal) (w : ToolWorld) :
    Except PyError Json × ToolWorld :=
  match Json.field? "channel" args, Json.field? "text" args with
  | some (.str channel), some (.str text) =>
    match backends.slack with
    | none => (.error ⟨"RuntimeError", "slack not configured"⟩, w)
    | some post => (post ⟨channel, text⟩, { w with posts := w.posts ++ [⟨channel, text⟩] })
  | _, _ => (.error ⟨"TypeError", "expected _SlackPostArgs"⟩, w)

def slackPostTool (casing : Casing) (coerce : String → Json → Except String Json) (backends : Backends) :
    BaseTool ToolWorld where
  name := "slack_post"
  riskTier := .send
  requiredPermission := some "tool:slack:post"
  argsSchema := slackPostArgs casing coerce
  resourcePermission := channelPermission casing
  run := slackPostRun backends

/-! ### Calendar -/

def calendarFields : List FieldDef :=
  [{ name := "summary", minLength := some 1 }, { name := "start", minLength := some 1 },
    { name := "end", minLength := some 1 }, { name := "description" }, { name := "location" },
    { name := "timezone" }]

def calendarArgs (coerce : String → Json → Except String Json) (args : Args) : Except PyError Args :=
  modelValidate coerce "_CalendarCreateEventArgs" calendarFields
    (args ++ [("description", .str ""), ("location", .str ""), ("timezone", .str "UTC")])

def GOOGLE_CALENDAR_EVENTS : String := "https://www.googleapis.com/auth/calendar.events"

/-- The event validated arguments describe. -/
def calendarEvent (args : Args) : Option CalendarEvent := do
  let text (name : String) : Option String :=
    match Json.field? name args with
    | some (.str s) => some s
    | _ => none
  return { summary := ← text "summary", start := ← text "start", finish := ← text "end"
           description := ← text "description", location := ← text "location"
           timezone := ← text "timezone" }

def calendarCreateEventRun (backends : Backends) (args : Args) (principal : Principal) (w : ToolWorld) :
    Except PyError Json × ToolWorld :=
  match calendarEvent args with
  | none => (.error ⟨"TypeError", "expected _CalendarCreateEventArgs"⟩, w)
  | some event =>
    match backends.calendar, backends.credentialResolver with
    | some createEvent, true =>
      match w.getAccessToken principal .google [GOOGLE_CALENDAR_EVENTS] with
      | .error e => (.error e, w)
      | .ok token => (createEvent event token, { w with events := w.events ++ [(event, token)] })
    | _, _ => (.error ⟨"RuntimeError", "calendar not configured"⟩, w)

def calendarCreateEventTool (coerce : String → Json → Except String Json) (backends : Backends) :
    BaseTool ToolWorld where
  name := "calendar_create_event"
  riskTier := .send
  requiredPermission := some "tool:calendar:write"
  argsSchema := calendarArgs coerce
  run := calendarCreateEventRun backends

/-! ### The registry's tools -/

/-- A tool in a world of which it sees a part. -/
def BaseTool.within {σ τ : Type} (view : τ → σ) (update : τ → σ → τ) (tool : BaseTool σ) : BaseTool τ where
  name := tool.name
  riskTier := tool.riskTier
  argsSchema := tool.argsSchema
  requiredPermission := tool.requiredPermission
  resourcePermission := tool.resourcePermission
  run := fun args principal w =>
    let (result, after) := tool.run args principal (view w)
    (result, update w after)
  auditMetadata := tool.auditMetadata

/-- The tools `default_registry` registers, in its order. -/
def standardTools (casing : Casing) (coerce : String → Json → Except String Json) (backends : Backends) :
    List (BaseTool ToolWorld) :=
  [searchTool coerce, sendEmailTool casing coerce backends, slackPostTool casing coerce backends,
    gmailSendTool casing coerce backends, calendarCreateEventTool coerce backends,
    (slackPostAsUserTool coerce (backends.slackUser && backends.credentialResolver)).within
      ToolWorld.toSlackWorld (fun w slack => { w with toSlackWorld := slack })]

section members
variable {casing : Casing} {coerce : String → Json → Except String Json} {backends : Backends}

theorem searchTool_mem : searchTool coerce ∈ standardTools casing coerce backends := by
  simp [standardTools]

theorem sendEmailTool_mem : sendEmailTool casing coerce backends ∈ standardTools casing coerce backends := by
  simp [standardTools]

theorem slackPostTool_mem : slackPostTool casing coerce backends ∈ standardTools casing coerce backends := by
  simp [standardTools]

end members

end Atlas
