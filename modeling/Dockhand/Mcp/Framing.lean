import Dockhand.Go.RawJson

/-!
# JSON-RPC messages

The endpoint takes one message or a batch of them and answers with the responses. `handleMessage`
decodes a message twice: into a map, where the keys count as they are, and into `rpcRequest`, where
their case does not matter. It asks the map for the id and for what makes a response of a client,
and the struct for the version and the method.

`serve_framed` says what the endpoint does with a body. It promises nothing of messages whose
`jsonrpc` or `method` is spelled in another case or stands there twice, nor of responses of a client
with an id that is neither a string nor a number, and nothing of ids with characters that are
escaped.
-/

namespace Dockhand.Mcp.Framing

open Go

/-! ### The provider -/

/-- A call returns, or it panics. -/
inductive Outcome (α : Type)
  | value (a : α)
  | panic (v : String)

/-- `ToolInfo`: what `tools/list` says of a tool. -/
structure ToolInfo where
  name : String
  description : String
  writes : Bool
  inputSchema : Option Raw

/-- The outcome of a tool call. -/
structure Result where
  text : String
  isError : Bool := false

/-- The caller identity and arguments of a tools/call. -/
structure CallContext where
  keyID : String
  keyName : String
  args : List (String × Raw)

/-- What the handler rests on: the provider, which changes its own state `σ`, what is random,
`encoding/json` on texts, and the texts of errors. -/
structure Handler (σ : Type) where
  keyID : String
  keyName : String
  tools : String → σ → Outcome (List ToolInfo) × σ
  call : CallContext → String → σ → Outcome (Except String Result) × σ
  newSessionID : σ → String × σ
  /-- The value that a text is, `none` when it is not JSON. -/
  parse : List UInt8 → Option Raw
  /-- Of the texts without spaces around them, those of arrays begin with a bracket. -/
  parse_array : ∀ bs v, parse (trimSpaceBytes bs) = some v →
    ((trimSpaceBytes bs).head? = some 0x5B ↔ ∃ vs, v = .arr vs)
  syntaxError : List UInt8 → String
  decodeError : Option Raw → String
  /-- `%q`. -/
  quote : String → String

/-! ### Messages -/

/-- `rpcError`: the code and the text that a client is told. -/
structure RpcError where
  code : ℤ
  message : String
  deriving DecidableEq

/-- The result of a method. -/
inductive Payload
  | initialized (protocolVersion : String)
  | ping
  | tools (list : List ToolInfo)
  | tool (res : Result)

/-- What a response carries, one of the two. -/
inductive Answer
  | result (p : Payload)
  | error (err : RpcError)

/-- `rpcResponse`: the id of the request, as it was written, and the answer. -/
structure Response where
  id : List UInt8
  answer : Answer

/-- The state of the provider, the tools that have been run, and the id of the session. -/
structure World (σ : Type) where
  provider : σ
  ran : List String := []
  sessionID : String := ""

/-- `LatestProtocolVersion`, which a client is offered whose own version is not supported. -/
def latestProtocolVersion : String := "2025-06-18"

/-- `SupportedProtocolVersions`, the newest first. -/
def supportedProtocolVersions : List String := ["2025-06-18", "2025-03-26", "2024-11-05"]

/-- `maxBodyBytes`: a longer body is not read. -/
def maxBodyBytes : ℕ := 1048576

/-- The body is no JSON. -/
def codeParseError : ℤ := -32700

/-- The message is no request. -/
def codeInvalidRequest : ℤ := -32600

/-- No method has this name. -/
def codeMethodNotFound : ℤ := -32601

/-- The parameters are not those of the method. -/
def codeInvalidParams : ℤ := -32602

/-- The server itself has failed. -/
def codeInternalError : ℤ := -32603

/-- The id of a response to a request whose id could not be read. -/
def nullID : List UInt8 := utf8 "null"

/-- `errorResponse`: a response with an error. -/
def errorResponse (id : List UInt8) (code : ℤ) (msg : String) : Response := ⟨id, .error ⟨code, msg⟩⟩

/-- The text of an id. -/
def idText : Raw → List UInt8
  | .num text => text
  | .str text _ => text
  | _ => nullID

/-- The value may stand for an id. -/
def stringOrNumber : Raw → Bool
  | .str .. | .num _ => true
  | _ => false

/-- `validID`; null is tolerated. -/
def validID : Raw → Bool
  | .str .. | .null | .num _ => true
  | _ => false

/-- `rpcRequest`: the fields of a request, without the id. -/
structure RpcRequest where
  jsonrpc : String
  method : String
  params : Option Raw

/-- `Unmarshal` into an `rpcRequest`. -/
def decodeRequest (m : List (String × Raw)) : Option RpcRequest := do
  let jsonrpc ← Raw.decodeString "jsonrpc" m
  let method ← Raw.decodeString "method" m
  return ⟨jsonrpc, method, Raw.decodeRaw "params" m⟩

/-- The members that a struct or a map is decoded from. -/
def membersOf : Raw → Option (List (String × Raw))
  | .obj m => some m
  | .null => some []
  | _ => none

/-- The members of `arguments` are put into one map. -/
def decodeArguments (m : List (String × Raw)) : Option (List (String × Raw)) :=
  (m.filter fun e => Raw.Matches "arguments" e.1).foldlM (fun args e =>
    match e.2 with
    | .obj m' => some (m'.foldl (fun args e' => Assoc.set e'.1 e'.2 args) args)
    | .null => some []
    | _ => none) []

namespace Handler

variable {σ : Type} (h : Handler σ)

/-- The error of a call that does not say which tool it is for. -/
def missingName : RpcError := ⟨codeInvalidParams, "invalid params: missing tool name"⟩

/-- The method `tools/call`. -/
def toolsCall (w : World σ) (params : Option Raw) : Outcome (Except RpcError Payload) × World σ :=
  match params with
  | none => (.value (.error missingName), w)
  | some v =>
    match (membersOf v).bind fun m =>
        (Raw.decodeString "name" m).bind fun name =>
          (decodeArguments m).map fun args => (name, args) with
    | none => (.value (.error ⟨codeInvalidParams, "invalid params: " ++ h.decodeError params⟩), w)
    | some (name, args) =>
      if name = "" then (.value (.error missingName), w)
      else match h.tools h.keyID w.provider with
        | (.panic v, s) => (.panic v, { w with provider := s })
        | (.value ts, s) =>
          if ts.any fun t => t.name = name then
            let (out, s) := h.call ⟨h.keyID, h.keyName, args⟩ name s
            let w := { w with provider := s, ran := w.ran ++ [name] }
            match out with
            | .panic v => (.panic v, w)
            | .value (.error err) => (.value (.error ⟨codeInternalError, err⟩), w)
            | .value (.ok res) => (.value (.ok (.tool res)), w)
          else
            (.value (.ok (.tool ⟨"Unknown tool " ++ h.quote name ++
              ", or it is not enabled for this API key.", true⟩)), { w with provider := s })

/-- `dispatch` runs the method of a request. A notification comes here as well, and its answer is
dropped. -/
def dispatch (w : World σ) (method : String) (params : Option Raw) :
    Outcome (Except RpcError Payload) × World σ :=
  if method = "initialize" then
    match params.elim (some "") fun v => (membersOf v).bind
      (Raw.decodeString "protocolVersion") with
    | none => (.value (.error ⟨codeInvalidParams, "invalid params: " ++ h.decodeError params⟩), w)
    | some version =>
      let version :=
        if version ∈ supportedProtocolVersions then version else latestProtocolVersion
      let (id, s) := h.newSessionID w.provider
      (.value (.ok (.initialized version)), { w with provider := s, sessionID := id })
  else if method = "ping" then (.value (.ok .ping), w)
  else if method = "tools/list" then
    match h.tools h.keyID w.provider with
    | (.panic v, s) => (.panic v, { w with provider := s })
    | (.value ts, s) => (.value (.ok (.tools ts)), { w with provider := s })
  else if method = "tools/call" then h.toolsCall w params
  else (.value (.error ⟨codeMethodNotFound, "method not found: " ++ method⟩), w)

/-- What is made of an outcome; a panic is recovered. -/
def answer : Outcome (Except RpcError Payload) → Answer
  | .panic v => .error ⟨codeInternalError, "internal error: " ++ v⟩
  | .value (.error err) => .error err
  | .value (.ok p) => .result p

/-- `handleMessage` processes one JSON-RPC message; `none` means no response. -/
def handleMessage (w : World σ) (v : Raw) : Option Response × World σ :=
  match membersOf v with
  | none =>
    (some (errorResponse nullID codeInvalidRequest "invalid request: expected a JSON object"), w)
  | some m =>
    let id := Raw.lookup m "id"
    if id.any fun id => !validID id then
      (some (errorResponse nullID codeInvalidRequest
        "invalid request: id must be a string or number"), w)
    else if (Raw.lookup m "method").isNone &&
        ((Raw.lookup m "result").isSome || (Raw.lookup m "error").isSome) then (none, w)
    else match (decodeRequest m).filter fun req => req.jsonrpc = "2.0" && req.method ≠ "" with
      | none =>
        (some (errorResponse (id.elim nullID idText) codeInvalidRequest
          "invalid request: expected jsonrpc \"2.0\" and a method"), w)
      | some req =>
        match id with
        | none => (none, w)
        | some id =>
          let (out, w) := h.dispatch w req.method req.params
          (some ⟨idText id, answer out⟩, w)

/-- The loop over a batch. -/
def handleAll : World σ → List Raw → List Response × World σ
  | w, [] => ([], w)
  | w, v :: vs =>
    let (resp, w) := h.handleMessage w v
    let (out, w) := handleAll w vs
    (resp.toList ++ out, w)

end Handler

/-! ### Bodies -/

/-- The encoding of a response escapes the text of its id. -/
def Response.written (resp : Response) : Response := { resp with id := escapeHTML resp.id }

/-- What stands in the body of a reply. -/
inductive Content
  | empty
  | one (resp : Response)
  | many (out : List Response)

/-- The responses of a reply: none, a single one, or those of a batch. -/
def Content.responses : Content → List Response
  | .empty => []
  | .one resp => [resp]
  | .many out => out

/-- What is sent back: the status, the session of an `initialize`, and the responses. -/
structure Reply where
  status : ℕ
  sessionID : String := ""
  content : Content

/-- A single response whose id is null. -/
def writeError (status : ℕ) (code : ℤ) (msg : String) : Reply where
  status := status
  content := .one (errorResponse nullID code msg).written

namespace Handler

variable {σ : Type} (h : Handler σ)

/-- `ServeHTTP` from the body of an authenticated POST on. -/
def serve (s : σ) (body : List UInt8) : Reply × World σ :=
  if maxBodyBytes < body.length then
    (writeError 413 codeInvalidRequest "request body exceeds 1 MB", ⟨s, [], ""⟩)
  else if (trimSpaceBytes body).head? = some 0x5B then
    match h.parse (trimSpaceBytes body) with
    | some (.arr []) => (writeError 200 codeInvalidRequest "empty batch", ⟨s, [], ""⟩)
    | some (.arr msgs) =>
      match h.handleAll ⟨s, [], ""⟩ msgs with
      | ([], w) => (⟨202, w.sessionID, .empty⟩, w)
      | (out, w) => (⟨200, w.sessionID, .many (out.map Response.written)⟩, w)
    | _ =>
      (writeError 200 codeParseError ("parse error: " ++ h.syntaxError (trimSpaceBytes body)),
        ⟨s, [], ""⟩)
  else
    match h.parse (trimSpaceBytes body) with
    | none => (writeError 200 codeParseError "parse error: invalid JSON", ⟨s, [], ""⟩)
    | some v =>
      match h.handleMessage ⟨s, [], ""⟩ v with
      | (none, w) => (⟨202, w.sessionID, .empty⟩, w)
      | (some resp, w) => (⟨200, w.sessionID, .one resp.written⟩, w)

/-- The messages of a body. -/
def members (body : List UInt8) : List Raw :=
  match h.parse (trimSpaceBytes body) with
  | none => []
  | some (.arr vs) => vs
  | some v => [v]

end Handler

/-! ### What the endpoint is for -/

/-- What a message is, by the keys of its object. -/
inductive Kind
  | request (id : Raw) (method : String)
  | notification
  | clientResponse
  | malformed

/-- A result or an error, and no method. -/
def isClientResponse (m : List (String × Raw)) : Bool :=
  (Raw.lookup m "method").isNone &&
    ((Raw.lookup m "result").isSome || (Raw.lookup m "error").isSome)

/-- The method of a message with `jsonrpc` 2.0 and a method that is not empty. -/
def wellFormedMethod (m : List (String × Raw)) : Option String :=
  match Raw.lookup m "jsonrpc", Raw.lookup m "method" with
  | some (.str _ version), some (.str _ method) =>
    if version = "2.0" ∧ method ≠ "" then some method else none
  | _, _ => none

/-- The kind of a message when `ids` are the ids that a request may have. -/
def kindOf (ids : Raw → Bool) : Raw → Kind
  | .obj m =>
    if isClientResponse m then .clientResponse
    else match wellFormedMethod m, Raw.lookup m "id" with
      | none, _ => .malformed
      | some _, none => .notification
      | some method, some id => if ids id then .request id method else .malformed
  | _ => .malformed

/-- The message has an id. -/
def HasID (v : Raw) : Prop := ∃ m, v = .obj m ∧ (Raw.lookup m "id").isSome

/-- The message is read in one way: as the response of a client with an id that is allowed, or by
one version and one method that are spelled as they are. -/
def Clear (v : Raw) : Prop :=
  ∀ m, v = .obj m →
    if isClientResponse m then (Raw.lookup m "id").all validID = true
    else Raw.Unambiguous "jsonrpc" m ∧ Raw.Unambiguous "method" m

section Spec

variable {σ : Type}

/-- How many tools a message has run. -/
def RunsAtMost (v : Raw) (w w' : World σ) : Prop :=
  w'.ran = w.ran ∨ HasID v ∧ ∃ tool, w'.ran = w.ran ++ [tool]

/-- The message is answered as its kind demands. -/
def Answered (ids : Raw → Bool) (v : Raw) (resp : Option Response) (w w' : World σ) : Prop :=
  match kindOf ids v with
  | .request id method =>
    (∃ r, resp = some r ∧ (NoHTML (idText id) → r.id = idText id)) ∧
      (w'.ran = w.ran ∨ method = "tools/call" ∧ ∃ tool, w'.ran = w.ran ++ [tool])
  | .notification | .clientResponse => resp = none ∧ w' = w
  | .malformed => (∃ id err, resp = some ⟨id, .error err⟩) ∧ w' = w

/-- The responses to messages that are taken in turn, with the promise kept for those of which it
is made. -/
inductive Answers (ids : Raw → Bool) (promised : Raw → Prop) :
    World σ → List Raw → List Response → World σ → Prop
  | nil (w : World σ) : Answers ids promised w [] [] w
  | cons {w w' w'' : World σ} {v : Raw} {vs : List Raw} {resp : Option Response}
      {out : List Response} (runs : RunsAtMost v w w')
      (kept : promised v → Answered ids v resp w w') (rest : Answers ids promised w' vs out w'') :
      Answers ids promised w (v :: vs) (resp.toList ++ out) w''

theorem Answers.head {ids : Raw → Bool} {promised : Raw → Prop} {w w' : World σ} {v : Raw}
    {vs : List Raw} {out : List Response} (hans : Answers ids promised w (v :: vs) out w')
    (hv : promised v) : ∃ resp w'', Answered ids v resp w w'' ∧ resp.toList <+: out := by
  cases hans with
  | cons runs kept rest => exact ⟨_, _, kept hv, List.prefix_append _ _⟩

end Spec

/-! ### One message -/

/-- What `rpcRequest` is decoded to when the version and the method are spelled as they are. -/
theorem decodeRequest_filter {m : List (String × Raw)} (hversion : Raw.Unambiguous "jsonrpc" m)
    (hmethod : Raw.Unambiguous "method" m) :
    ((decodeRequest m).filter fun req => req.jsonrpc = "2.0" && req.method ≠ "") =
      (wellFormedMethod m).map fun method => ⟨"2.0", method, Raw.decodeRaw "params" m⟩ := by
  have hreq : decodeRequest m = (Raw.decodeString "jsonrpc" m).bind fun version =>
      (Raw.decodeString "method" m).map fun method =>
        ⟨version, method, Raw.decodeRaw "params" m⟩ := by
    rw [decodeRequest]
    cases Raw.decodeString "jsonrpc" m <;> cases Raw.decodeString "method" m <;> rfl
  rw [hreq, Raw.decodeString_of_unambiguous hversion, Raw.decodeString_of_unambiguous hmethod,
    wellFormedMethod]
  cases Raw.lookup m "jsonrpc" with
  | none => cases Raw.lookup m "method" with
    | none => simp
    | some v => cases v <;> simp [Raw.decString]
  | some version => cases Raw.lookup m "method" with
    | none => cases version <;> simp [Raw.decString]
    | some method =>
      cases version <;> cases method <;> simp [Raw.decString]
      split <;> simp_all

section Message

variable {σ : Type} (h : Handler σ)

private theorem toolsCall_ran (w : World σ) (params : Option Raw) :
    (h.toolsCall w params).2.ran = w.ran ∨ ∃ tool, (h.toolsCall w params).2.ran = w.ran ++
      [tool] := by
  unfold Handler.toolsCall
  split
  · exact Or.inl rfl
  split
  · exact Or.inl rfl
  split
  · exact Or.inl rfl
  split
  · exact Or.inl rfl
  split
  · dsimp only
    right
    split
    · exact ⟨_, rfl⟩
    · exact ⟨_, rfl⟩
    · exact ⟨_, rfl⟩
  · exact Or.inl rfl

/-- Of the methods, `tools/call` alone runs a tool. -/
theorem dispatch_ran (w : World σ) (method : String) (params : Option Raw) :
    (h.dispatch w method params).2.ran = w.ran ∨
      method = "tools/call" ∧ ∃ tool, (h.dispatch w method params).2.ran = w.ran ++ [tool] := by
  unfold Handler.dispatch
  split
  · left
    split <;> rfl
  split
  · exact Or.inl rfl
  split
  · left
    split <;> rfl
  split
  · rename_i hcall
    exact (toolsCall_ran h w params).imp_right fun hran => ⟨hcall, hran⟩
  · exact Or.inl rfl

/-- A request with an id is dispatched, and nothing else has an effect. -/
theorem handleMessage_cases (w : World σ) (v : Raw) :
    (∃ m id, ∃ req : RpcRequest, v = .obj m ∧ Raw.lookup m "id" = some id ∧ h.handleMessage w v =
      (some ⟨idText id, Handler.answer (h.dispatch w req.method req.params).1⟩,
        (h.dispatch w req.method req.params).2)) ∨
    (h.handleMessage w v).2 = w := by
  unfold Handler.handleMessage
  split
  · exact Or.inr rfl
  rename_i m hm
  dsimp only
  split
  · exact Or.inr rfl
  split
  · exact Or.inr rfl
  split
  · exact Or.inr rfl
  rename_i req _
  split
  · exact Or.inr rfl
  · rename_i id hid
    refine Or.inl ⟨m, id, req, ?_, hid, rfl⟩
    cases v with
    | obj m' => exact congrArg Raw.obj (Option.some.inj hm)
    | null =>
      obtain rfl : [] = m := Option.some.inj hm
      simp [Raw.lookup] at hid
    | _ => simp [membersOf] at hm

private theorem handleMessage_runsAtMost (w : World σ) (v : Raw) :
    RunsAtMost v w (h.handleMessage w v).2 := by
  obtain ⟨m, id, req, rfl, hid, heq⟩ | heq := handleMessage_cases h w v
  · rw [heq]
    refine (dispatch_ran h w req.method req.params).imp_right fun hran => ⟨⟨m, rfl, ?_⟩, hran.2⟩
    simp [hid]
  · exact Or.inl (congrArg World.ran heq)

private theorem handleMessage_clientResponse {m : List (String × Raw)}
    (hclient : isClientResponse m = true)
    (hid : (Raw.lookup m "id").all validID = true) (w : World σ) :
    h.handleMessage w (.obj m) = (none, w) := by
  have hvalid : ¬ (Raw.lookup m "id").any (fun id => !validID id) = true := by
    cases hlookup : Raw.lookup m "id" with
    | none => simp
    | some id => simpa [hlookup] using hid
  unfold Handler.handleMessage
  simp only [membersOf]
  rw [if_neg hvalid]
  exact if_pos hclient

/-- The outcome for an object that is read in one way, by its method and its id. -/
theorem handleMessage_obj {m : List (String × Raw)} (hclient : ¬ isClientResponse m = true)
    (hversion : Raw.Unambiguous "jsonrpc" m) (hmethod : Raw.Unambiguous "method" m) (w : World σ) :
    match wellFormedMethod m, Raw.lookup m "id" with
    | some _, none => h.handleMessage w (.obj m) = (none, w)
    | some method, some id =>
      if validID id then ∃ params, h.handleMessage w (.obj m) =
        (some ⟨idText id, Handler.answer (h.dispatch w method params).1⟩,
          (h.dispatch w method params).2)
      else ∃ err, h.handleMessage w (.obj m) = (some ⟨nullID, .error err⟩, w)
    | none, _ => ∃ id err, h.handleMessage w (.obj m) = (some ⟨id, .error err⟩, w) := by
  unfold Handler.handleMessage
  simp only [membersOf]
  rw [decodeRequest_filter hversion hmethod]
  simp only [isClientResponse] at hclient
  rw [if_neg hclient]
  cases wellFormedMethod m with
  | none =>
    simp only [Option.map_none]
    split
    · exact ⟨_, _, rfl⟩
    · exact ⟨_, _, rfl⟩
  | some method => cases Raw.lookup m "id" with
    | none => rfl
    | some id =>
      dsimp only
      by_cases hvalid : validID id = true
      · rw [if_pos hvalid]
        exact ⟨_, if_neg (by simp [hvalid])⟩
      · rw [if_neg hvalid]
        exact ⟨_, if_pos (by simpa using hvalid)⟩

/-- A message that is read in one way is answered as its kind demands. -/
theorem handleMessage_answered {v : Raw} (hv : Clear v) (w : World σ) :
    Answered validID v ((h.handleMessage w v).1.map Response.written) w
      (h.handleMessage w v).2 := by
  cases v with
  | obj m =>
    have hclear := hv m rfl
    unfold Answered kindOf
    dsimp only
    split at hclear
    case isTrue hclient =>
      rw [if_pos hclient, handleMessage_clientResponse h hclient hclear]
      exact ⟨rfl, rfl⟩
    case isFalse hclient =>
      have hobj := handleMessage_obj h hclient hclear.1 hclear.2 w
      rw [if_neg hclient]
      cases hmethod : wellFormedMethod m with
      | none =>
        rw [hmethod] at hobj
        obtain ⟨id, err, heq⟩ := hobj
        rw [heq]
        exact ⟨⟨_, err, rfl⟩, rfl⟩
      | some method => cases hid : Raw.lookup m "id" with
        | none =>
          simp only [hmethod, hid] at hobj
          rw [hobj]
          exact ⟨rfl, rfl⟩
        | some id =>
          simp only [hmethod, hid] at hobj ⊢
          split at hobj
          case isTrue hvalid =>
            obtain ⟨params, heq⟩ := hobj
            rw [if_pos hvalid, heq]
            exact ⟨⟨_, rfl, fun hhtml => escapeHTML_eq_self hhtml⟩, dispatch_ran h w method params⟩
          case isFalse hvalid =>
            obtain ⟨err, heq⟩ := hobj
            rw [if_neg hvalid, heq]
            exact ⟨⟨_, err, rfl⟩, rfl⟩
  | null => exact ⟨⟨_, _, rfl⟩, rfl⟩
  | _ => exact ⟨⟨_, _, rfl⟩, rfl⟩

/-- A malformed message is answered by an error, whatever the state is, and has no effect. -/
theorem handleMessage_malformed {v : Raw} (hv : Clear v) (hkind : kindOf validID v = .malformed)
    (w : World σ) :
    ∃ id err, (h.handleMessage w v).1.map Response.written = some ⟨id, .error err⟩ ∧
      (h.handleMessage w v).2 = w := by
  have hans := handleMessage_answered h hv w
  rw [Answered, hkind] at hans
  obtain ⟨⟨id, err, hresp⟩, hw⟩ := hans
  exact ⟨id, err, hresp, hw⟩

/-! ### A batch -/

private theorem handleAll_cons (w : World σ) (v : Raw) (vs : List Raw) :
    h.handleAll w (v :: vs) =
      ((h.handleMessage w v).1.toList ++ (h.handleAll (h.handleMessage w v).2 vs).1,
        (h.handleAll (h.handleMessage w v).2 vs).2) := rfl

theorem handleAll_append (w : World σ) (us vs : List Raw) :
    h.handleAll w (us ++ vs) =
      ((h.handleAll w us).1 ++ (h.handleAll (h.handleAll w us).2 vs).1,
        (h.handleAll (h.handleAll w us).2 vs).2) := by
  induction us generalizing w with
  | nil => rfl
  | cons u us ih => simp only [List.cons_append, handleAll_cons, ih, List.append_assoc]

/-- The messages of a batch are answered in turn. -/
theorem handleAll_answers (w : World σ) (vs : List Raw) :
    Answers validID Clear w vs ((h.handleAll w vs).1.map Response.written)
      (h.handleAll w vs).2 := by
  induction vs generalizing w with
  | nil => exact .nil w
  | cons v vs ih =>
    have hcons := Answers.cons (handleMessage_runsAtMost h w v)
      (fun hv => handleMessage_answered h hv w) (ih (h.handleMessage w v).2)
    rwa [Option.toList_map, ← List.map_append] at hcons

/-- A malformed message adds its error to the responses of a batch, and that is all. -/
theorem handleAll_insert {v : Raw} (hv : Clear v) (hkind : kindOf validID v = .malformed)
    (w : World σ) (us vs : List Raw) :
    ∃ id err, (h.handleAll w (us ++ v :: vs)).1.map Response.written =
        (h.handleAll w us).1.map Response.written ++ ⟨id, .error err⟩ ::
          (h.handleAll (h.handleAll w us).2 vs).1.map Response.written ∧
      (h.handleAll w (us ++ v :: vs)).2 = (h.handleAll w (us ++ vs)).2 := by
  obtain ⟨id, err, hresp, hw⟩ := handleMessage_malformed h hv hkind (h.handleAll w us).2
  refine ⟨id, err, ?_, ?_⟩
  · rw [handleAll_append, handleAll_cons, hw, List.map_append, List.map_append, ← Option.toList_map,
      hresp]
    rfl
  · rw [handleAll_append, handleAll_append, handleAll_cons, hw]

/-! ### A body -/

private theorem written_errorResponse (code : ℤ) (msg : String) :
    (errorResponse nullID code msg).written = ⟨nullID, .error ⟨code, msg⟩⟩ := by
  have hnull : escapeHTML nullID = nullID := by decide +kernel
  rw [errorResponse, Response.written, hnull]

private theorem responses_writeError (status : ℕ) (code : ℤ) (msg : String) :
    (writeError status code msg).content.responses = [⟨nullID, .error ⟨code, msg⟩⟩] := by
  rw [writeError, Content.responses, written_errorResponse]

private theorem members_eq {body : List UInt8} {v : Raw}
    (hparse : h.parse (trimSpaceBytes body) = some v)
    (harr : ∀ vs, v ≠ .arr vs) : h.members body = [v] := by
  unfold Handler.members
  rw [hparse]
  split
  · contradiction
  · rename_i vs heq
    exact absurd (Option.some.inj heq) (harr vs)
  · rename_i heq
    rw [Option.some.inj heq]

/-- The reply to a body that is no JSON or an empty batch is an error. -/
theorem serve_of_members_nil (s : σ) {body : List UInt8} (hlen : body.length ≤ maxBodyBytes)
    (hnil : h.members body = []) :
    ∃ err, (h.serve s body).1.content.responses = [⟨nullID, .error err⟩] ∧
      (h.serve s body).2 = ⟨s, [], ""⟩ := by
  unfold Handler.serve
  rw [if_neg (Nat.not_lt.mpr hlen)]
  cases hparse : h.parse (trimSpaceBytes body) with
  | none =>
    split
    · exact ⟨_, responses_writeError _ _ _, rfl⟩
    · exact ⟨_, responses_writeError _ _ _, rfl⟩
  | some v =>
    have harr : ∃ vs, v = .arr vs := by
      by_contra hno
      rw [members_eq h hparse fun vs hvs => hno ⟨vs, hvs⟩] at hnil
      exact List.cons_ne_nil _ _ hnil
    rw [if_pos ((h.parse_array body v hparse).mpr harr)]
    obtain ⟨vs, rfl⟩ := harr
    obtain rfl : vs = [] := by simpa [Handler.members, hparse] using hnil
    exact ⟨_, responses_writeError _ _ _, rfl⟩

/-- The reply to a body with messages holds the responses to them. -/
theorem serve_of_members (s : σ) {body : List UInt8} (hlen : body.length ≤ maxBodyBytes)
    (hne : h.members body ≠ []) :
    (h.serve s body).1.content.responses =
        (h.handleAll ⟨s, [], ""⟩ (h.members body)).1.map Response.written ∧
      (h.serve s body).2 = (h.handleAll ⟨s, [], ""⟩ (h.members body)).2 := by
  unfold Handler.serve
  rw [if_neg (Nat.not_lt.mpr hlen)]
  cases hparse : h.parse (trimSpaceBytes body) with
  | none => exact absurd (by rw [Handler.members, hparse]) hne
  | some v =>
    have hhead := h.parse_array body v hparse
    by_cases harr : ∃ vs, v = .arr vs
    · rw [if_pos (hhead.mpr harr)]
      obtain ⟨vs, rfl⟩ := harr
      have hmem : h.members body = vs := by rw [Handler.members, hparse]
      rw [hmem] at hne ⊢
      cases vs with
      | nil => exact absurd rfl hne
      | cons v vs =>
        dsimp only
        cases h.handleAll ⟨s, [], ""⟩ (v :: vs) with
        | mk out w => cases out with
          | nil => exact ⟨rfl, rfl⟩
          | cons r out => exact ⟨rfl, rfl⟩
    · rw [if_neg (mt hhead.mp harr), members_eq h hparse fun vs hvs => harr ⟨vs, hvs⟩,
        handleAll_cons]
      dsimp only
      cases h.handleMessage ⟨s, [], ""⟩ v with
      | mk resp w => cases resp with
        | none => exact ⟨rfl, rfl⟩
        | some r => exact ⟨rfl, rfl⟩

/-- A body of at most a megabyte is answered by one error when it is no JSON or an empty batch, and
else by the responses to its messages in their order. A malformed message adds its error to the
responses of a batch and changes nothing else. -/
theorem serve_framed (s : σ) {body : List UInt8} (hlen : body.length ≤ maxBodyBytes) :
    (h.members body = [] →
      ∃ err, (h.serve s body).1.content.responses = [⟨nullID, .error err⟩] ∧
        (h.serve s body).2 = ⟨s, [], ""⟩) ∧
    (h.members body ≠ [] →
      Answers validID Clear ⟨s, [], ""⟩ (h.members body) (h.serve s body).1.content.responses
        (h.serve s body).2) ∧
    ∀ (body' : List UInt8) (us : List Raw) (v : Raw) (vs : List Raw),
      body'.length ≤ maxBodyBytes → Clear v → kindOf validID v = .malformed →
      h.members body = us ++ v :: vs → h.members body' = us ++ vs → us ++ vs ≠ [] →
      ∃ id err before after w, Answers validID Clear ⟨s, [], ""⟩ us before w ∧
        (h.serve s body).1.content.responses = before ++ ⟨id, .error err⟩ :: after ∧
        (h.serve s body').1.content.responses = before ++ after ∧
        (h.serve s body).2 = (h.serve s body').2 := by
  refine ⟨serve_of_members_nil h s hlen, fun hne => ?_, ?_⟩
  · obtain ⟨hout, hw⟩ := serve_of_members h s hlen hne
    rw [hout, hw]
    exact handleAll_answers h _ _
  · intro body' us v vs hlen' hv hkind hmem hmem' hne
    obtain ⟨hout, hw⟩ := serve_of_members h s hlen (by simp [hmem])
    obtain ⟨hout', hw'⟩ := serve_of_members h s hlen' (hmem' ▸ hne)
    obtain ⟨id, err, hins, hsame⟩ := handleAll_insert h hv hkind ⟨s, [], ""⟩ us vs
    refine ⟨id, err, _, (h.handleAll (h.handleAll ⟨s, [], ""⟩ us).2 vs).1.map Response.written, _,
      handleAll_answers h _ us, ?_, ?_, ?_⟩
    · rw [hout, hmem, hins]
    · rw [hout', hmem', handleAll_append, List.map_append]
    · rw [hw, hw', hmem, hmem', hsame]

end Message

/-! ### A null id -/

/-- A provider without tools, behind a reader of one text. -/
def pinged : Handler Unit where
  keyID := "k"
  keyName := "key"
  tools _ s := (.value [], s)
  call _ _ s := (.value (.error "unknown tool"), s)
  newSessionID s := ("s", s)
  parse bs :=
    if bs = utf8 "\x7b\"jsonrpc\":\"2.0\",\"id\":null,\"method\":\"ping\"\x7d" then
      some (.obj [("jsonrpc", .str (utf8 "\"2.0\"") "2.0"), ("id", .null),
        ("method", .str (utf8 "\"ping\"") "ping")])
    else none
  parse_array bs v hparse := by
    split at hparse
    · rename_i htext
      rw [htext, ← Option.some.inj hparse]
      simp
      decide +kernel
    · contradiction
  syntaxError _ := "invalid character"
  decodeError _ := "json: cannot unmarshal"
  quote s := "\"" ++ s ++ "\""

/-- A ping whose id is written, and null. -/
def nullPing : List UInt8 :=
  utf8 "\x7b\"jsonrpc\":\"2.0\",\"id\":null,\"method\":\"ping\"\x7d"

private theorem members_nullPing : pinged.members nullPing =
    [.obj [("jsonrpc", .str (utf8 "\"2.0\"") "2.0"), ("id", .null),
      ("method", .str (utf8 "\"ping\"") "ping")]] := by
  have htrim : trimSpaceBytes nullPing = nullPing := by decide +kernel
  rw [Handler.members, htrim]
  rfl

/-- A message with a null id is answered by a result. -/
theorem serve_nullPing :
    ¬ ∀ (h : Handler Unit) (body : List UInt8), body.length ≤ maxBodyBytes → h.members body ≠ [] →
      Answers stringOrNumber (fun _ => True) ⟨(), [], ""⟩ (h.members body)
        (h.serve () body).1.content.responses (h.serve () body).2 := by
  intro hall
  have hlen : nullPing.length ≤ maxBodyBytes := by decide +kernel
  have hne : pinged.members nullPing ≠ [] := by simp [members_nullPing]
  have hans := hall pinged nullPing hlen hne
  rw [(serve_of_members pinged () hlen hne).1, members_nullPing] at hans
  obtain ⟨resp, w, ⟨⟨id, err, rfl⟩, -⟩, hpre⟩ := hans.head trivial
  obtain ⟨rest, hrest⟩ := hpre
  have hanswer : Answer.error err = .result .ping :=
    congrArg Response.answer (List.cons.inj hrest).1
  contradiction

/-- A ping whose id is null is a request, and is answered. -/
theorem serve_framed_nullPing :
    Answers validID Clear ⟨(), [], ""⟩ (pinged.members nullPing)
      (pinged.serve () nullPing).1.content.responses (pinged.serve () nullPing).2 :=
  (serve_framed pinged () (by decide +kernel)).2.1 (by simp [members_nullPing])

end Dockhand.Mcp.Framing
