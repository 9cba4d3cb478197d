import GameNet.Hex
import GameNet.Lib.Program
import GameNet.Protocol

/-!
# GameNet.Identity

The host's identity files (`crates/core/src/identity.rs`) and the commands of the CLI that use
them (`crates/cli/src/tunnel.rs`), as programs over file-system calls and messages.

A new token is written to a private temporary file that is moved to its place only if nothing is
there, so a file appears with its whole content: `persistNoclobber`. An I/O error other than the
ones named here ends the command, at whatever call it happens.
-/

namespace GameNet

/-- The files of `~/.config/gamenet`: `identity.bin`, `identity.bin.pending`, `recovery.bin`. -/
inductive Path where
  | identity
  | pending
  | recovery
deriving DecidableEq

inductive FileType where
  | regular
  | other
deriving DecidableEq

inductive Entry where
  | file (bytes : List UInt8)
  | other
deriving DecidableEq

def Entry.fileType : Entry → FileType
  | .file _ => .regular
  | .other => .other

inductive Call where
  /-- `fs::symlink_metadata` -/
  | metadata (path : Path)
  /-- `fs::read` -/
  | read (path : Path)
  | getrandom
  | persistNoclobber (path : Path) (token : TunnelToken)
  | persist (path : Path) (token : TunnelToken)
  | rename (source target : Path)
  | prompt
  | send (message : ControlMessage)
  | receive
deriving DecidableEq

/-- What a call returns. `none` stands for a file that is not found, and for a connection that is
closed before a message. -/
abbrev Answer : Call → Type
  | .metadata _ => Option FileType
  | .read _ => Option (List UInt8)
  | .getrandom => TunnelToken
  | .persistNoclobber _ _ => Bool
  | .persist _ _ => Unit
  | .rename _ _ => Bool
  | .prompt => String
  | .send _ => Unit
  | .receive => Option ControlMessage

inductive IdentityError where
  | notFound
  | notRegular
  | corrupt
  | recoveryCodeLength
  | recoveryCodeDigit
  | pendingEqualsCurrent
  | changedDuringRotation
  | pendingChangedDuringRotation
  | changedDuringRecovery
  | pendingChangedDuringRecovery
  | closedBeforeRotation
  | rejectedRotation (message : String)
  | unexpectedRotation (response : ControlMessage)
  | closedBeforeRecovery
  | rejectedRecovery (message : String)
  | unexpectedRecovery (response : ControlMessage)
  | closedBeforeTunnel
  | rejectedRegistration (message : String)
  | unexpectedResponse (response : ControlMessage)

/-- The texts of the errors, but for the system's own and those that print a whole message. -/
def IdentityError.message : IdentityError → Option String
  | .notFound => none
  | .notRegular => some "Identity path is not a regular file"
  | .corrupt => some "Identity file corrupt: expected 32 bytes at"
  | .recoveryCodeLength => some "Recovery code must be 64 hex characters"
  | .recoveryCodeDigit => some "Recovery code contains a non-hex character"
  | .pendingEqualsCurrent => some "Pending identity equals current identity"
  | .changedDuringRotation => some "Identity changed during rotation"
  | .pendingChangedDuringRotation => some "Pending identity changed during rotation"
  | .changedDuringRecovery => some "Identity changed during recovery"
  | .pendingChangedDuringRecovery => some "Pending identity changed during recovery"
  | .closedBeforeRotation => some "Relay closed before confirming identity rotation"
  | .rejectedRotation message => some ("Relay rejected rotation: " ++ message)
  | .unexpectedRotation _ => none
  | .closedBeforeRecovery => some "Relay closed before confirming recovery"
  | .rejectedRecovery message => some ("Relay rejected recovery: " ++ message)
  | .unexpectedRecovery _ => none
  | .closedBeforeTunnel => some "Server closed before confirming tunnel"
  | .rejectedRegistration message => some ("Server rejected registration: " ++ message)
  | .unexpectedResponse _ => none

abbrev Prog := Program Call Answer IdentityError

open Program (perform fail attempt)

abbrev symlinkMetadata (path : Path) : Prog (Option FileType) := perform (Call.metadata path)
abbrev fsRead (path : Path) : Prog (Option (List UInt8)) := perform (Call.read path)
abbrev getrandom : Prog TunnelToken := perform Call.getrandom
abbrev persistNoclobber (path : Path) (token : TunnelToken) : Prog Bool :=
  perform (Call.persistNoclobber path token)
abbrev persist (path : Path) (token : TunnelToken) : Prog Unit := perform (Call.persist path token)
abbrev rename (source target : Path) : Prog Bool := perform (Call.rename source target)
abbrev promptPassword : Prog String := perform Call.prompt
abbrev sendMsg (message : ControlMessage) : Prog Unit := perform (Call.send message)
abbrev recvMsg : Prog (Option ControlMessage) := perform Call.receive

/-! ## identity.rs -/

/-- Unicode's `White_Space`, which `str::trim` removes. -/
def isWhiteSpace (c : Char) : Bool :=
  let n := c.toNat
  decide ((9 ≤ n ∧ n ≤ 13) ∨ n = 32 ∨ n = 0x85 ∨ n = 0xA0 ∨ n = 0x1680 ∨ (0x2000 ≤ n ∧ n ≤ 0x200A) ∨
    n = 0x2028 ∨ n = 0x2029 ∨ n = 0x202F ∨ n = 0x205F ∨ n = 0x3000)

def trim (text : String) : String :=
  String.ofList
    ((text.toList.dropWhile isWhiteSpace).reverse.dropWhile isWhiteSpace).reverse

/-- `format_recovery_code` writes its digits as `hex_32` does. -/
def formatRecoveryCode (secret : TunnelToken) : String := hex32 secret

/-- `parse_recovery_code` reads its digits as `parse_hex_32` does. -/
def parseRecoveryCode (code : String) : Except IdentityError TunnelToken :=
  match parseHex32 (trim code) with
  | .error .notSixtyFour => .error .recoveryCodeLength
  | .error .invalidDigit => .error .recoveryCodeDigit
  | .ok secret => .ok secret

def recoveryFingerprint (sha256 : Bytes32 → Bytes32) (secret : TunnelToken) : Bytes32 :=
  sha256 secret

def toToken (bytes : List UInt8) : Option TunnelToken :=
  if h : bytes.length = 32 then some ⟨bytes, h⟩ else none

theorem toToken_eq_some {bytes : List UInt8} {token : TunnelToken} :
    toToken bytes = some token ↔ bytes = token.toList := by
  unfold toToken
  split
  · constructor
    · intro h
      rw [← Option.some.inj h]
      rfl
    · rintro rfl
      rfl
  · rename_i hlen
    constructor
    · intro h; cases h
    · rintro rfl
      exact absurd token.toList_length hlen

def readExisting (path : Path) : Prog TunnelToken := do
  match ← symlinkMetadata path with
  | none => fail .notFound
  | some .other => fail .notRegular
  | some .regular =>
    match ← fsRead path with
    | none => fail .notFound
    | some bytes =>
      match toToken bytes with
      | none => fail .corrupt
      | some token => pure token

def createNewPrivate (path : Path) (token : TunnelToken) : Prog Bool :=
  persistNoclobber path token

def loadOrCreateAt (path : Path) : Prog TunnelToken := do
  match ← symlinkMetadata path with
  | some _ => readExisting path
  | none =>
    let token ← getrandom
    if ← createNewPrivate path token then pure token else readExisting path

def storeRecovery (secret : TunnelToken) : Prog Unit := do
  if ← createNewPrivate .recovery secret then pure ()
  else
    if (← readExisting .recovery) = secret then pure ()
    else persist .recovery secret

structure PendingRecovery where
  oldToken : Option TunnelToken
  newToken : TunnelToken
deriving DecidableEq

/-- The identity if there is one. -/
def readIdentity : Prog (Option TunnelToken) := do
  match ← symlinkMetadata .identity with
  | some _ => some <$> readExisting .identity
  | none => pure none

def prepareRecovery : Prog PendingRecovery := do
  let oldToken ← readIdentity
  let newToken ← loadOrCreateAt .pending
  if some newToken = oldToken then fail .pendingEqualsCurrent
  else pure { oldToken := oldToken, newToken := newToken }

/-- `fs::rename` of the pending file over the identity. -/
def installPending : Prog Unit := do
  if ← rename .pending .identity then pure () else fail .notFound

def PendingRecovery.finish (p : PendingRecovery) : Prog Unit := do
  if (← readIdentity) ≠ p.oldToken then fail .changedDuringRecovery
  else
    if (← readExisting .pending) ≠ p.newToken then fail .pendingChangedDuringRecovery
    else installPending

structure PendingRotation where
  oldToken : TunnelToken
  newToken : TunnelToken
deriving DecidableEq

/-- The source repeats the body of `load_or_create_at` for the pending file. -/
def prepareRotation : Prog PendingRotation := do
  let oldToken ← readExisting .identity
  let newToken ← loadOrCreateAt .pending
  if oldToken = newToken then fail .pendingEqualsCurrent
  else pure { oldToken := oldToken, newToken := newToken }

def PendingRotation.finish (p : PendingRotation) : Prog Unit := do
  if (← readExisting .identity) ≠ p.oldToken then fail .changedDuringRotation
  else
    if (← readExisting .pending) ≠ p.newToken then fail .pendingChangedDuringRotation
    else installPending

/-! ## tunnel.rs -/

def rotateOnConnection (pending : PendingRotation) : Prog (Option UInt16) := do
  sendMsg (.rotateIdentity pending.oldToken pending.newToken)
  match ← recvMsg with
  | none => fail .closedBeforeRotation
  | some (.identityRotated publicPort) =>
    pending.finish
    pure publicPort
  | some (.error message) => fail (.rejectedRotation message)
  | some other => fail (.unexpectedRotation other)

def rotateIdentity : Prog (Option UInt16) := do
  let pending ← prepareRotation
  rotateOnConnection pending

/-- The code that the user types, which is a backup. -/
def promptRecovery : Prog (TunnelToken × Bool) := do
  match parseRecoveryCode (← promptPassword) with
  | .error e => fail e
  | .ok secret => pure (secret, true)

/-- The secret of `recover_identity`, and whether it is from a backup. -/
def recoverySecret (useBackupCode : Bool) : Prog (TunnelToken × Bool) := do
  if useBackupCode then promptRecovery
  else
    match ← attempt (readExisting .recovery) with
    | .ok secret => pure (secret, false)
    | .error .notFound => promptRecovery
    | .error e => fail e

def recoverOnConnection (pending : PendingRecovery) (secret : TunnelToken) (fromBackup : Bool) :
    Prog UInt16 := do
  sendMsg (.recoverIdentity secret pending.newToken)
  match ← recvMsg with
  | none => fail .closedBeforeRecovery
  | some (.identityRecovered publicPort) =>
    if fromBackup then storeRecovery secret
    pending.finish
    pure publicPort
  | some (.error message) => fail (.rejectedRecovery message)
  | some other => fail (.unexpectedRecovery other)

def recoverIdentity (useBackupCode : Bool) : Prog UInt16 := do
  let (secret, fromBackup) ← recoverySecret useBackupCode
  let pending ← prepareRecovery
  recoverOnConnection pending secret fromBackup

/-- `AgentTunnel::connect`, up to the answer of the relay. -/
def connect (sha256 : Bytes32 → Bytes32) (localPort : UInt16) : Prog UInt16 := do
  let token ← loadOrCreateAt .identity
  let secret ← loadOrCreateAt .recovery
  sendMsg (.register .tcp localPort token (recoveryFingerprint sha256 secret))
  match ← recvMsg with
  | none => fail .closedBeforeTunnel
  | some (.tunnelReady publicPort) => pure publicPort
  | some (.error message) => fail (.rejectedRegistration message)
  | some other => fail (.unexpectedResponse other)

/-! ## The file system -/

abbrev Files := Path → Option Entry

/-- What the environment contributes to a call. -/
structure Env where
  random : TunnelToken
  text : String
  reply : Option ControlMessage

namespace Files

def set (files : Files) (path : Path) (entry : Option Entry) : Files :=
  fun p => if p = path then entry else files p

/-- The answer of a call and the files it leaves. A call that fails with another I/O error has no
answer. -/
def serve (files : Files) (env : Env) : (c : Call) → Option (Answer c × Files)
  | .metadata path => some ((files path).map Entry.fileType, files)
  | .read path =>
    match files path with
    | none => some (none, files)
    | some (.file bytes) => some (some bytes, files)
    | some .other => none
  | .getrandom => some (env.random, files)
  | .persistNoclobber path token =>
    match files path with
    | none => some (true, files.set path (some (.file token.toList)))
    | some _ => some (false, files)
  | .persist path token => some ((), files.set path (some (.file token.toList)))
  | .rename source target =>
    match files source with
    | none => some (false, files)
    | some entry => some (true, (files.set source none).set target (some entry))
  | .prompt => some (env.text, files)
  | .send _ => some ((), files)
  | .receive => some (env.reply, files)

/-- The path holds the token. -/
def Has (files : Files) (path : Path) (token : TunnelToken) : Prop :=
  files path = some (.file token.toList)

end Files
end GameNet
