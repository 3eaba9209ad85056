import Landslide.Warp.Payload
import Landslide.Lib.Transition

/-! # The warp backend

The backend stores the messages that the chain sends and decides which messages are
signed on request. The decision is meant to fall in three cases: a stored message, the
hash of an accepted block, and the uptime of a validator. An error that reaches `Verify`
is wrapped, and an absent key is no error of the database, so the last two cases are
never looked at.
-/
namespace Landslide.Warp
open Codec

/-- Errors of the backend, with the errors they wrap. -/
inductive BackendError where
  | errNotFound
  | db (message : String)
  | codec (e : CodecError)
  | getWarpMessage (messageID : String) (e : BackendError)
  | parseUnsignedMessage (messageID : String) (e : BackendError)
  | putWarpSignature (e : BackendError)
  | sign (message : String)
  | addMessage (e : BackendError)
  | parseAddressedCall (e : MessageError)
  | parseMessage (e : CodecError)
  | notSignable
  | validate (message : String)
  | newHash (e : MessageError)
  | newUnsignedMessage (e : MessageError)
  | validateBlock (message : String)
  deriving DecidableEq

def BackendError.text : BackendError → String
  | errNotFound => "not found"
  | db message => message
  | codec e => e.text
  | getWarpMessage messageID e => "failed to get warp message " ++ messageID ++ " from db: " ++ e.text
  | parseUnsignedMessage messageID e =>
    "failed to parse unsigned message " ++ messageID ++ ": " ++ e.text
  | putWarpSignature e => "failed to put warp signature in db: " ++ e.text
  | sign message => "failed to sign warp message: " ++ message
  | addMessage e => "failed to sign warp message: " ++ e.text
  | parseAddressedCall e => "failed to parse unknown message as AddressedCall: " ++ e.text
  | parseMessage e => "failed to parse unknown message: " ++ e.text
  | notSignable => "parsed message is not Signable: <nil>"
  | validate message => "failed to validate warp message: " ++ message
  | newHash e => "failed to create new block hash payload: " ++ e.text
  | newUnsignedMessage e => "failed to create new unsigned warp message: " ++ e.text
  | validateBlock message => "failed to validate block message: " ++ message

def parseErrCode : ℕ := 1
def verifyErrCode : ℕ := 2

structure AppError where
  code : ℕ
  message : String
  deriving DecidableEq

def AppError.error (a : AppError) : String := toString a.code ++ ": " ++ a.message

structure ValidatorState where
  nodeID : String
  /-- The uptime in whole seconds. -/
  uptimeSeconds : UInt64

/-- What the backend is made of. -/
structure Backend where
  computeHash256 : Bytes → ID
  idString : ID → String
  /-- The types of the messages package. -/
  registry : Registry TypeName
  getAcceptedBlock : ID → Except String Unit
  getValidatorAndUptime : ID → Except String ValidatorState
  sign : UnsignedMessage → Except String Bytes

/-- The messages by ID, and beside them the messages that were stored. -/
structure MessageStore where
  db : ID → Option Bytes
  stored : List UnsignedMessage

namespace MessageStore

def empty : MessageStore := ⟨fun _ => none,[]⟩

/-- `Get` of a database that follows its contract: an absent key gives nil without an
error, which is the empty byte string here. -/
def get (s : MessageStore) (id : ID) : Except String Bytes := .ok ((s.db id).getD [])

def set (s : MessageStore) (m : UnsignedMessage) : MessageStore :=
  ⟨Function.update s.db m.id (some m.bytes),m :: s.stored⟩

@[simp] theorem set_db_self (s : MessageStore) (m : UnsignedMessage) :
    (s.set m).db m.id = some m.bytes := Function.update_self ..

@[simp] theorem set_db_of_ne (s : MessageStore) {m : UnsignedMessage} {id : ID} (h : id ≠ m.id) :
    (s.set m).db id = s.db id := Function.update_of_ne h ..

end MessageStore

/-! ## Decisions -/

/-- `verifyBlockMessage`, given what `GetAcceptedBlock` answers for the hash in the payload. -/
def verifyBlockMessage {β : Type} (blockID : String) (acceptedBlock : Except String β) :
    Option AppError :=
  match acceptedBlock with
  | .error e => some ⟨verifyErrCode,"failed to get block " ++ blockID ++ ": " ++ e⟩
  | .ok _ => none

namespace Backend
variable (b : Backend)

def signMessage (m : UnsignedMessage) : Except BackendError Bytes := (b.sign m).mapError .sign

def addMessage (s : MessageStore) (m : UnsignedMessage) (setError : Option String) :
    Except BackendError Unit × MessageStore :=
  match setError with
  | some e => (.error (.putWarpSignature (.db e)),s)
  | none => match b.signMessage m with
    | .error e => (.error (.addMessage e),s.set m)
    | .ok _ => (.ok (),s.set m)

def getMessage (get : ID → Except String Bytes) (messageID : ID) :
    Except BackendError UnsignedMessage :=
  match get messageID with
  | .error e => .error (.getWarpMessage (b.idString messageID) (.db e))
  | .ok bytes => match Warp.parseUnsignedMessage b.computeHash256 bytes with
    | .error e => .error (.parseUnsignedMessage (b.idString messageID) (.codec e))
    | .ok m => .ok m

def verifyUptimeMessage (uptimeMsg : ValidatorUptime) : Option AppError :=
  match b.getValidatorAndUptime uptimeMsg.validationID with
  | .error e => some ⟨verifyErrCode,"failed to get uptime for validationID " ++
      b.idString uptimeMsg.validationID ++ ": " ++ e⟩
  | .ok vdr =>
    if vdr.uptimeSeconds < uptimeMsg.totalUptime then
      some ⟨verifyErrCode,"current uptime " ++ toString vdr.uptimeSeconds ++
        " is less than queried uptime " ++ toString uptimeMsg.totalUptime ++ " for nodeID " ++ vdr.nodeID⟩
    else none

def verifyOffchainAddressedCall (addressedCall : AddressedCall) : Option AppError :=
  match parseValidatorUptime b.registry addressedCall.payload with
  | .error e => some ⟨parseErrCode,"failed to parse addressed call message: " ++ e.text⟩
  | .ok uptimeMsg =>
    if addressedCall.sourceAddress.length ≠ 0 then
      some ⟨verifyErrCode,"source address should be empty for offchain addressed messages"⟩
    else b.verifyUptimeMessage uptimeMsg

/-- `Verify`; `none` is nil. The error of `GetMessage` is compared with the sentinel itself,
not with what it wraps. -/
def verify (get : ID → Except String Bytes) (m : UnsignedMessage) : Option AppError :=
  match b.getMessage get m.id with
  | .ok _ => none
  | .error err =>
    if err ≠ .errNotFound then
      some ⟨parseErrCode,"failed to get message " ++ b.idString m.id ++ ": " ++ err.text⟩
    else match parsePayload m.payload with
      | .error e => some ⟨parseErrCode,"failed to parse payload: " ++ e.text⟩
      | .ok (.addressedCall p) => b.verifyOffchainAddressedCall p
      | .ok (.hash p) => verifyBlockMessage (b.idString p.hash) (b.getAcceptedBlock p.hash)

/-- `ValidateMessage`. An uptime has no `VerifyMessage`, so it is not signable. -/
def validateMessage (get : ID → Except String Bytes) (m : UnsignedMessage) :
    Except BackendError Unit :=
  match b.getMessage get m.id with
  | .ok _ => .ok ()
  | .error _ => match Warp.parseAddressedCall m.payload with
    | .error e => .error (.parseAddressedCall e)
    | .ok addressedCall => match parseValidatorUptime b.registry addressedCall.payload with
      | .error e => .error (.parseMessage e)
      | .ok _ => .error .notSignable

def getMessageSignature (get : ID → Except String Bytes) (m : UnsignedMessage) :
    Except BackendError Bytes :=
  match b.verify get m with
  | some err => .error (.validate err.error)
  | none => match b.validateMessage get m with
    | .error e => .error (.validate e.text)
    | .ok _ => b.signMessage m

/-! ## Runs -/

abbrev AddCall := UnsignedMessage × Option String

def step (s : MessageStore) (call : AddCall) : MessageStore := (b.addMessage s call.1 call.2).2

def Reachable (s : MessageStore) : Prop :=
  Reaches (· = .empty) (fun _ call => call.1.Initialized b.computeHash256) b.step s

/-- The database holds the stored messages and nothing else. -/
structure StoreValid (s : MessageStore) : Prop where
  initialized : ∀ m ∈ s.stored, m.Initialized b.computeHash256
  of_db : ∀ id bytes, s.db id = some bytes → ∃ m ∈ s.stored, m.id = id ∧ m.bytes = bytes
  db_of_stored : ∀ m ∈ s.stored, s.db m.id ≠ none

variable {b}

theorem StoreValid.set {s : MessageStore} (h : b.StoreValid s) {m : UnsignedMessage}
    (hm : m.Initialized b.computeHash256) : b.StoreValid (s.set m) where
  initialized := by
    intro m' hm'
    rcases List.mem_cons.mp hm' with rfl | hm'
    · exact hm
    · exact h.initialized m' hm'
  of_db := by
    intro id bytes hdb
    by_cases hid : id = m.id
    · subst hid
      rw [MessageStore.set_db_self] at hdb
      exact ⟨m,List.mem_cons_self,rfl,Option.some.inj hdb⟩
    · rw [MessageStore.set_db_of_ne s hid] at hdb
      obtain ⟨m',hm',heq⟩ := h.of_db id bytes hdb
      exact ⟨m',List.mem_cons_of_mem _ hm',heq⟩
  db_of_stored := by
    intro m' hm'
    by_cases hid : m'.id = m.id
    · rw [hid,MessageStore.set_db_self]
      exact Option.some_ne_none _
    · rw [MessageStore.set_db_of_ne s hid]
      rcases List.mem_cons.mp hm' with rfl | hm'
      · exact absurd rfl hid
      · exact h.db_of_stored m' hm'

theorem step_eq (s : MessageStore) (call : AddCall) :
    b.step s call = s ∨ b.step s call = s.set call.1 := by
  unfold step addMessage
  split
  · exact .inl rfl
  · split <;> exact .inr rfl

theorem storeValid_of_reachable {s : MessageStore} (h : b.Reachable s) : b.StoreValid s := by
  refine Reaches.invariant ?_ ?_ h
  · rintro s rfl
    exact ⟨fun _ h => (nomatch h),fun _ _ h => (nomatch h),fun _ h => (nomatch h)⟩
  · intro s call hs hcall
    rcases step_eq s call with heq | heq
    · rwa [heq]
    · rw [heq]
      exact hs.set hcall

/-! ## Which messages are signed -/

/-- The payload is a hash of an accepted block. -/
def NamesAcceptedBlock (b : Backend) (m : UnsignedMessage) : Prop :=
  ∃ p, parsePayload m.payload = .ok (.hash p) ∧ b.getAcceptedBlock p.hash = .ok ()

/-- The payload is an addressed call without a source address that carries an uptime which
the validator has. -/
def CarriesUptime (b : Backend) (m : UnsignedMessage) : Prop :=
  ∃ p u vdr, parsePayload m.payload = .ok (.addressedCall p) ∧ p.sourceAddress = [] ∧
    parseValidatorUptime b.registry p.payload = .ok u ∧
    b.getValidatorAndUptime u.validationID = .ok vdr ∧ u.totalUptime ≤ vdr.uptimeSeconds

/-- The messages that should be signed. -/
def Signable (b : Backend) (s : MessageStore) (m : UnsignedMessage) : Prop :=
  m ∈ s.stored ∨ b.NamesAcceptedBlock m ∨ b.CarriesUptime m

/-- No stored message has the hash of this message without being it. -/
def NoCollision (b : Backend) (s : MessageStore) (m : UnsignedMessage) : Prop :=
  ∀ m' ∈ s.stored, b.computeHash256 m'.bytes = b.computeHash256 m.bytes → m'.bytes = m.bytes

theorem getMessage_ne_errNotFound (get : ID → Except String Bytes) (id : ID) :
    b.getMessage get id ≠ .error .errNotFound := by
  unfold getMessage
  split
  · exact fun h => nomatch h
  · split <;> exact fun h => nomatch h

theorem verify_eq_none_iff_getMessage (get : ID → Except String Bytes) (m : UnsignedMessage) :
    b.verify get m = none ↔ ∃ m', b.getMessage get m.id = .ok m' := by
  unfold verify
  cases hget : b.getMessage get m.id with
  | ok m' => exact ⟨fun _ => ⟨m',rfl⟩,fun _ => rfl⟩
  | error err =>
    have hne : err ≠ .errNotFound := by
      rintro rfl
      exact getMessage_ne_errNotFound get m.id hget
    dsimp only
    rw [if_pos hne]
    exact ⟨fun h => (nomatch h),fun ⟨_,h⟩ => (nomatch h)⟩

theorem parseUnsignedMessage_nil (computeHash256 : Bytes → ID) :
    ∀ m, Warp.parseUnsignedMessage computeHash256 [] ≠ .ok m :=
  fun _ h => absurd (parseUnsignedMessage_ok_iff.mp h).1 (by decide)

theorem getMessage_ok_iff {s : MessageStore} (hs : b.StoreValid s) (id : ID) :
    (∃ m, b.getMessage s.get id = .ok m) ↔ ∃ m ∈ s.stored, m.id = id := by
  unfold getMessage MessageStore.get
  constructor
  · rintro ⟨m,h⟩
    cases hdb : s.db id with
    | none =>
      rw [hdb] at h
      dsimp only [Option.getD_none] at h
      split at h
      · cases h
      · next hparse => exact absurd hparse (parseUnsignedMessage_nil _ _)
    | some bytes =>
      obtain ⟨m',hm',hid,_⟩ := hs.of_db id bytes hdb
      exact ⟨m',hm',hid⟩
  · rintro ⟨m,hm,rfl⟩
    obtain ⟨bytes,hdb⟩ := Option.ne_none_iff_exists'.mp (hs.db_of_stored m hm)
    obtain ⟨m',hm',_,rfl⟩ := hs.of_db _ _ hdb
    have hparse := hs.initialized m' hm'
    rw [UnsignedMessage.Initialized] at hparse
    refine ⟨m',?_⟩
    rw [hdb]
    dsimp only [Option.getD_some]
    rw [hparse]

theorem verify_eq_none_iff {s : MessageStore} (hs : b.StoreValid s) {m : UnsignedMessage}
    (hm : m.Initialized b.computeHash256) (hcollision : b.NoCollision s m) :
    b.verify s.get m = none ↔ m ∈ s.stored := by
  rw [verify_eq_none_iff_getMessage,getMessage_ok_iff hs]
  refine ⟨?_,fun hstored => ⟨m,hstored,rfl⟩⟩
  rintro ⟨m',hm',hid⟩
  -- equal IDs are equal hashes, hence equal bytes, and the bytes say what the message is
  have hinit := hs.initialized m' hm'
  have hhash : b.computeHash256 m'.bytes = b.computeHash256 m.bytes := by
    rw [← hm.id_eq,← hinit.id_eq,hid]
  have heq : m' = m := by
    rw [UnsignedMessage.Initialized,hcollision m' hm' hhash,hm] at hinit
    exact (Except.ok.inj hinit).symm
  exact heq ▸ hm'

/-- `Verify` decides as it should exactly on the stored messages and on those that should
not be signed. -/
theorem verify_iff_signable_iff {s : MessageStore} (hs : b.Reachable s) {m : UnsignedMessage}
    (hm : m.Initialized b.computeHash256) (hcollision : b.NoCollision s m) :
    (b.verify s.get m = none ↔ b.Signable s m) ↔
      m ∈ s.stored ∨ ¬b.NamesAcceptedBlock m ∧ ¬b.CarriesUptime m := by
  rw [verify_eq_none_iff (storeValid_of_reachable hs) hm hcollision,Signable]
  tauto

/-! ## Failed calls of `AddMessage` -/

/-- A call that fails leaves the store alone if the database failed, and else keeps the
message that could not be signed. -/
theorem addMessage_of_error {s : MessageStore} {m : UnsignedMessage} {setError : Option String}
    {err : BackendError} (h : (b.addMessage s m setError).1 = .error err) :
    (b.addMessage s m setError).2 = if setError = none then s.set m else s := by
  cases setError with
  | some e => rfl
  | none =>
    unfold addMessage at h ⊢
    dsimp only at h ⊢
    cases hsign : b.signMessage m with
    | error e => rfl
    | ok sig =>
      rw [hsign] at h
      cases h

theorem getMessage_set (s : MessageStore) (m : UnsignedMessage) (id : ID) :
    (∃ m', b.getMessage (s.set m).get id = .ok m') ↔
      if id = m.id then ∃ m', Warp.parseUnsignedMessage b.computeHash256 m.bytes = .ok m'
      else ∃ m', b.getMessage s.get id = .ok m' := by
  by_cases hid : id = m.id
  · subst hid
    rw [if_pos rfl,getMessage,MessageStore.get,MessageStore.set_db_self]
    dsimp only [Option.getD_some]
    cases Warp.parseUnsignedMessage b.computeHash256 m.bytes with
    | error e => exact ⟨fun ⟨_,h⟩ => (nomatch h),fun ⟨_,h⟩ => (nomatch h)⟩
    | ok m' => exact ⟨fun _ => ⟨_,rfl⟩,fun _ => ⟨_,rfl⟩⟩
  · rw [if_neg hid,getMessage,getMessage,MessageStore.get,MessageStore.get,s.set_db_of_ne hid]

/-- A failed call leaves the messages that `Verify` and `GetMessage` know as they were exactly
if the database failed, or the message was known before just as it is afterwards. -/
theorem addMessage_error_unchanged_iff {s : MessageStore} {m : UnsignedMessage}
    {setError : Option String} {err : BackendError}
    (h : (b.addMessage s m setError).1 = .error err) :
    ((∀ m', b.verify (b.addMessage s m setError).2.get m' = none ↔ b.verify s.get m' = none) ∧
      ∀ id, (∃ m', b.getMessage (b.addMessage s m setError).2.get id = .ok m') ↔
        ∃ m', b.getMessage s.get id = .ok m') ↔
    setError ≠ none ∨ ((∃ m', Warp.parseUnsignedMessage b.computeHash256 m.bytes = .ok m') ↔
      ∃ m', b.getMessage s.get m.id = .ok m') := by
  rw [addMessage_of_error h]
  by_cases hset : setError = none
  · rw [if_pos hset]
    constructor
    · rintro ⟨-,hget⟩
      have hself := hget m.id
      rw [getMessage_set,if_pos rfl] at hself
      exact .inr hself
    · intro hknown
      have hget : ∀ id, (∃ m', b.getMessage (s.set m).get id = .ok m') ↔
          ∃ m', b.getMessage s.get id = .ok m' := by
        intro id
        rw [getMessage_set]
        split
        · next hid =>
          rw [hid]
          exact hknown.resolve_left (not_not.mpr hset)
        · exact Iff.rfl
      refine ⟨fun m' => ?_,hget⟩
      rw [verify_eq_none_iff_getMessage,verify_eq_none_iff_getMessage,hget]
  · rw [if_neg hset]
    exact ⟨fun _ => .inl hset,fun _ => ⟨fun _ => Iff.rfl,fun _ => Iff.rfl⟩⟩

end Backend

namespace Sample

/-- All blocks are accepted, no validator is known. -/
def backend : Backend where
  computeHash256 := ID.ofBytes
  idString _ := "block"
  registry := messagesRegistry
  getAcceptedBlock _ := .ok ()
  getValidatorAndUptime _ := .error "unknown validator"
  sign _ := .ok []

def hashPayload : Bytes := beBytes 2 defaultVersion ++ Hash.body zeroID

def blockMessage : UnsignedMessage :=
  let bytes := beBytes 2 defaultVersion ++ UnsignedMessage.body 0 zeroID hashPayload
  ⟨0,zeroID,hashPayload,bytes,ID.ofBytes bytes⟩

theorem blockMessage_initialized : blockMessage.Initialized backend.computeHash256 :=
  parseUnsignedMessage_ok_iff.mpr ⟨by decide,List.drop_left' (beBytes_length 2 _),by decide,rfl,rfl⟩

/-- A message that names an accepted block is refused. -/
theorem accepted_block_refused : backend.Reachable .empty ∧
    blockMessage.Initialized backend.computeHash256 ∧ backend.NoCollision .empty blockMessage ∧
    backend.NamesAcceptedBlock blockMessage ∧
    backend.verify MessageStore.empty.get blockMessage = some ⟨parseErrCode,
      "failed to get message block: " ++
        (BackendError.parseUnsignedMessage "block" (.codec .cantUnpackVersion)).text⟩ := by
  refine ⟨.start rfl,blockMessage_initialized,fun _ h => (nomatch h),
    ⟨_,parsePayload_hash (by decide) (List.drop_left' (beBytes_length 2 _)),rfl⟩,rfl⟩

theorem verify_stored :
    (backend.verify (backend.step .empty (blockMessage,none)).get blockMessage = none ↔
      backend.Signable (backend.step .empty (blockMessage,none)) blockMessage) ↔
    blockMessage ∈ (backend.step .empty (blockMessage,none)).stored ∨
      ¬backend.NamesAcceptedBlock blockMessage ∧ ¬backend.CarriesUptime blockMessage :=
  Backend.verify_iff_signable_iff (.step (.start rfl) blockMessage_initialized)
    blockMessage_initialized fun m' hm' _ => by
      rcases List.mem_cons.mp hm' with rfl | hm'
      · rfl
      · cases hm'

/-- A signer that refuses every message, as it does for one of another chain. -/
def refusing : Backend := { backend with sign := fun _ => .error "wrong sourceChainID" }

/-- The message that could not be signed is vouched for afterwards. -/
theorem unsigned_message_verified :
    (refusing.addMessage .empty blockMessage none).1 =
      .error (.addMessage (.sign "wrong sourceChainID")) ∧
    refusing.verify MessageStore.empty.get blockMessage ≠ none ∧
    refusing.verify (refusing.addMessage .empty blockMessage none).2.get blockMessage = none := by
  have hbefore : (refusing.verify MessageStore.empty.get blockMessage).isSome = true := rfl
  have hfails : (refusing.addMessage .empty blockMessage none).1 =
      .error (.addMessage (.sign "wrong sourceChainID")) := rfl
  refine ⟨hfails,Option.isSome_iff_ne_none.mp hbefore,?_⟩
  rw [Backend.verify_eq_none_iff_getMessage,Backend.addMessage_of_error hfails,if_pos rfl,
    Backend.getMessage_set,if_pos rfl]
  exact ⟨_,blockMessage_initialized⟩

/-- A full disk leaves what `Verify` says of the message as it was. -/
theorem full_disk_unchanged :
    backend.verify (backend.addMessage .empty blockMessage (some "disk full")).2.get blockMessage =
      none ↔ backend.verify MessageStore.empty.get blockMessage = none := by
  have hfails : (backend.addMessage .empty blockMessage (some "disk full")).1 =
      .error (.putWarpSignature (.db "disk full")) := rfl
  have hunchanged := (Backend.addMessage_error_unchanged_iff hfails).mpr
    (.inl (Option.some_ne_none _))
  exact hunchanged.1 blockMessage

end Sample
end Landslide.Warp
