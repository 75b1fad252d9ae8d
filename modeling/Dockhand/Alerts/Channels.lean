import Dockhand.Go.Dict
import Dockhand.Go.Strings
import Dockhand.Transition.Exec

/-!
# Notification channels

The channels of the `notification_channels` table, and `CreateChannel` and `UpdateChannel` as the
API calls them. A channel is validated on its trimmed values and stored with its secret values
encrypted; `View` is what the API shows of it, with the secret values masked. Which key is secret
depends on the type of the channel.

A config is a map of strings, and the text of a view is a list of bytes, because `mask` cuts a value
at a byte. The box that encrypts is a parameter, with the law that it decrypts what it has
encrypted. Database calls succeed, and the random numbers of the box do not run out.
-/

namespace Dockhand.Alerts

open Go

/-- `secret.Box`, with the random numbers `ν` that each `Encrypt` draws. -/
structure Box (ν : Type) where
  encrypt : ν → String → String
  decrypt : String → Option String
  decrypt_encrypt : ∀ n v, v ≠ "" → decrypt (encrypt n v) = some v

/-! ### Types and secrets -/

/-- The config keys of each channel type. -/
def channelTypes : List (String × List String) :=
  [("email", ["host", "port", "username", "password", "from", "to"]),
   ("slack", ["url"]),
   ("webhook", ["url"]),
   ("ntfy", ["url", "topic", "token"])]

/-- The keys that are masked in API responses. -/
def secretKeys : List String := ["password", "token"]

/-- `isSecret`: the keys that hold a credential in every channel, and the URL of a webhook, which is
one. -/
def isSecret (typ key : String) : Bool :=
  secretKeys.contains key || (key = "url" && (typ = "slack" || typ = "webhook"))

/-- The dots that stand for the bytes of a secret that are not shown. -/
def maskPrefix : String := "••••"

/-- The bytes of a string. -/
def bytes (v : String) : List UInt8 := v.toUTF8.data.toList

/-- A secret value as the API shows it: its last four bytes, if it has more than four. -/
def mask (v : String) : List UInt8 :=
  if v = "" then []
  else if (bytes v).length ≤ 4 then bytes maskPrefix
  else bytes maskPrefix ++ (bytes v).drop ((bytes v).length - 4)

/-- A channel with its raw config. -/
structure Channel where
  id : String
  type : String
  name : String
  config : Dict String String
  enabled : Bool
  createdAt : ℕ
  deriving DecidableEq

/-- The API shape of a channel. -/
structure View where
  id : String
  type : String
  name : String
  config : Dict String (List UInt8)
  enabled : Bool
  createdAt : ℕ
  deriving DecidableEq

/-- `View` converts to the API shape with secrets masked. -/
def Channel.view (c : Channel) : View where
  id := c.id
  type := c.type
  name := c.name
  config := c.config.mapVals fun k v => if isSecret c.type k then mask v else bytes v
  enabled := c.enabled
  createdAt := c.createdAt

/-! ### The stored config -/

section Box

variable {ν : Type} (box : Box ν)

/-- A stored value: `enc:` stands before an encrypted one, and what does not decrypt is empty. -/
def decodeValue (v : String) : String :=
  if hasPrefix v "enc:" then (box.decrypt (trimPrefix v "enc:")).getD "" else v

/-- The config as the code works with it, every value decrypted. -/
def decodeConfig (raw : Dict String String) : Dict String String :=
  raw.mapVals fun _ v => decodeValue box v

/-- The config as the table holds it: secret values that are not empty are encrypted, each with a
nonce of its own. -/
def encodeConfig (draw : String → ν) (typ : String) (cfg : Dict String String) :
    Dict String String :=
  cfg.mapVals fun k v => if isSecret typ k && v ≠ "" then "enc:" ++ box.encrypt (draw k) v else v

/-- The channel as the table holds it. -/
def Channel.encoded (draw : String → ν) (c : Channel) : Channel :=
  { c with config := encodeConfig box draw c.type c.config }

/-- The channel as `scanChannels` reads it. -/
def Channel.decoded (c : Channel) : Channel := { c with config := decodeConfig box c.config }

end Box

/-! ### Create and update -/

/-- The create and patch body. -/
structure ChannelInput where
  type : Option String := none
  name : Option String := none
  config : Dict String String := ∅
  enabled : Option Bool := none

/-- The trimmed values of the keys of the type. -/
def Channel.clean (c : Channel) (keys : List String) : Dict String String :=
  keys.foldl (fun m k => m.set k (trimSpace ((c.config.get? k).getD ""))) ∅

/-- The URL begins with `http://` or `https://`. -/
def isHTTP (url : String) : Bool := hasPrefix url "http://" || hasPrefix url "https://"

/-- Fill in a default. -/
def setDefault (cfg : Dict String String) (key value : String) : Dict String String :=
  if cfg.get? key = some "" then cfg.set key value else cfg

/-- The checks of each type on its trimmed config, and its defaults. -/
def checkConfig (typ : String) (clean : Dict String String) :
    Except String (Dict String String) :=
  if typ = "email" then
    if clean.get? "host" = some "" ∨ clean.get? "to" = some "" ∨ clean.get? "from" = some "" then
      .error "email needs host, from and to"
    else .ok (setDefault clean "port" "587")
  else if typ = "ntfy" then
    if clean.get? "topic" = some "" then .error "ntfy needs a topic"
    else .ok (setDefault clean "url" "https://ntfy.sh")
  else if isHTTP ((clean.get? "url").getD "") then .ok clean
  else .error "url must start with http:// or https://"

/-- `validateChannel`: the type is known, the keys are cut down to those of the type and checked,
and a missing name is replaced by the type. -/
def validateChannel (c : Channel) : Except String Channel :=
  match channelTypes.lookup c.type with
  | none => .error "type must be email, slack, ntfy or webhook"
  | some keys =>
    (checkConfig c.type (c.clean keys)).map fun config =>
      { c with name := if trimSpace c.name = "" then c.type else c.name, config }

/-- The channel that `CreateChannel` validates. -/
def ChannelInput.channel (inp : ChannelInput) (id : String) (createdAt : ℕ) : Channel where
  id
  type := inp.type.getD ""
  name := inp.name.getD ""
  config := inp.config
  enabled := inp.enabled.getD true
  createdAt

/-- The value looks like a masked one. -/
def isMasked (v : String) : Bool := hasPrefix v maskPrefix

/-- The stored config with the new values. Masked values keep the stored ones. -/
def mergeConfig (cfg : Dict String String) (patch : Dict String String) : Dict String String :=
  patch.entries.foldl (fun m e => if isMasked e.2 then m else m.set e.1 e.2) cfg

/-- The channel that `UpdateChannel` validates. -/
def Channel.patched (c : Channel) (inp : ChannelInput) : Channel :=
  { c with
    type := inp.type.getD c.type
    name := inp.name.getD c.name
    config := mergeConfig c.config inp.config
    enabled := inp.enabled.getD c.enabled }

/-! ### Calls -/

/-- The table, and what the API has answered so far. -/
structure Channels where
  rows : List Channel := []
  replies : List (Except String View) := []

/-- A call with the random numbers that it draws. The database chooses the id and the time of a new
channel. -/
inductive ChannelCall (ν : Type) where
  | create (id : String) (createdAt : ℕ) (inp : ChannelInput) (draw : String → ν)
  | update (id : String) (inp : ChannelInput) (draw : String → ν)

namespace Channels

variable {ν : Type} (box : Box ν)

/-- `GetChannel`. -/
def getChannel (s : Channels) (id : String) : Option Channel :=
  (s.rows.find? fun r => r.id = id).map (Channel.decoded box)

/-- `UPDATE notification_channels … WHERE id::text=$1`. -/
def write (s : Channels) (c : Channel) : List Channel :=
  s.rows.map fun r => if r.id = c.id then { c with createdAt := r.createdAt } else r

/-- The call returns, and leaves the rows as they are. -/
def answer (s : Channels) (reply : Except String View) : Channels :=
  { s with replies := s.replies ++ [reply] }

/-- `CreateChannel`, with the id and the time that the database gives the row. -/
def createChannel (s : Channels) (id : String) (createdAt : ℕ) (inp : ChannelInput)
    (draw : String → ν) : Channels :=
  match validateChannel (inp.channel id createdAt) with
  | .error err => s.answer (.error err)
  | .ok c => { s with rows := s.rows ++ [c.encoded box draw] }.answer (.ok c.view)

/-- `UpdateChannel`: the input is laid over the decrypted row, so that a value that is sent back
masked keeps its secret. -/
def updateChannel (s : Channels) (id : String) (inp : ChannelInput) (draw : String → ν) :
    Channels :=
  match s.getChannel box id with
  | none => s.answer (.error "channel not found")
  | some stored =>
    match validateChannel (stored.patched inp) with
    | .error err => s.answer (.error err)
    | .ok c => { s with rows := s.write (c.encoded box draw) }.answer (.ok c.view)

/-- One call. -/
def step (s : Channels) : ChannelCall ν → Option Channels
  | .create id createdAt inp draw => some (s.createChannel box id createdAt inp draw)
  | .update id inp draw => some (s.updateChannel box id inp draw)

/-- What the API lists. -/
def views (s : Channels) : List View := s.rows.map fun r => (r.decoded box).view

end Channels

end Dockhand.Alerts
