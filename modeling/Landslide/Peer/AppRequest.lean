import Landslide.Uptime.State
import Landslide.Warp.BlockSignatures

/-! # Requests from peers

`AppRequest` reads a request with the codec of the message package first and gives what is no
request there to the SDK network, whose messages begin with the ID of a handler as a varint.
Two handlers sign: the signature handler of the VM answers for the ID of a message or of a
block, and the handler of ACP-118 answers for a message that the peer sends in full. The engine
takes an error of `AppRequest` as fatal.
-/
namespace Landslide.Peer
open Codec Warp
open Uptime (NodeID)

/-! ## The message package -/

inductive MessageTypeName where
  | txsGossip
  | messageSignatureRequest
  | blockSignatureRequest
  | signatureResponse
  | request
  deriving DecidableEq

abbrev byteArray (len : ℕ) : GoType MessageTypeName := .array len (.uint .byte)

def messageTypeEnv : TypeEnv MessageTypeName where
  fields
    | .txsGossip => [⟨"Txs",.slice (.uint .byte),true,true⟩]
    | .messageSignatureRequest => [⟨"MessageID",byteArray Warp.idLen,true,true⟩]
    | .blockSignatureRequest => [⟨"BlockID",byteArray Warp.idLen,true,true⟩]
    | .signatureResponse => [⟨"Signature",byteArray signatureLen,true,true⟩]
    | .request => []
  -- the `Handle` of a gossip message has another signature
  implements
    | .struct .messageSignatureRequest,.request => true
    | .struct .blockSignatureRequest,.request => true
    | _,_ => false

def messageRegistry : Registry MessageTypeName :=
  ([.struct .txsGossip,.struct .messageSignatureRequest,.struct .blockSignatureRequest,
    .struct .signatureResponse].foldlM Registry.registerType .new).toOption.getD .new

/-- `message.Codec`; there is no map in these types. -/
def messageCodec : Manager MessageTypeName :=
  ⟨messageTypeEnv,messageRegistry,2 * 1024 * 1024 - 64 * 1024,⟨id,fun _ => .refl _⟩⟩

/-- As deep as an interface that holds a struct goes. -/
def messageDepth : ℕ := 3

inductive Request where
  | messageSignature (messageID : ID)
  | blockSignature (blockID : ID)
  deriving DecidableEq

def parseRequest (bytes : Bytes) : Except CodecError Request := do
  match ← messageCodec.unmarshal messageDepth (.interface .request) bytes with
  | .iface (.struct .messageSignatureRequest) (.struct [.bytes messageID]) =>
    .ok (.messageSignature (ID.ofBytes messageID))
  | .iface (.struct .blockSignatureRequest) (.struct [.bytes blockID]) =>
    .ok (.blockSignature (ID.ofBytes blockID))
  | _ => .error .unsupportedType

def marshalResponse (signature : ByteArrayOf signatureLen) : Except CodecError Bytes :=
  messageCodec.marshal messageDepth (.ptr (.struct .signatureResponse))
    (.ptr (.struct [.bytes signature.1]))

theorem unmarshal_byteStruct_iff {name : MessageTypeName} {len : ℕ} (fuel : ℕ)
    (hfields : getSerializedFields (messageTypeEnv.fields name) = .ok [byteArray len])
    {typeStack : List (GoType MessageTypeName)} {p rest : Bytes} {v : Val MessageTypeName} :
    unmarshal messageTypeEnv messageRegistry (fuel + 2) (.struct name) typeStack p =
        .ok (v,rest) ↔
      ∃ bytes, p = bytes ++ rest ∧ bytes.length = len ∧ v = .struct [.bytes bytes] := by
  rw [unmarshal_struct hfields,Reader.map_eq_ok]
  constructor
  · rintro ⟨vs,hvs,rfl⟩
    obtain ⟨v₁,p₁,vs₁,h₁,hnil,rfl⟩ := readEach_cons_eq_ok.mp hvs
    obtain ⟨rfl,rfl⟩ := readEach_nil_eq_ok.mp hnil
    obtain ⟨bytes,hp,hlen,rfl⟩ := unmarshal_byteArray_ok_iff.mp h₁
    exact ⟨bytes,hp,hlen,rfl⟩
  · rintro ⟨bytes,hp,hlen,rfl⟩
    exact ⟨_,readEach_cons_eq_ok.mpr ⟨_,_,_,unmarshal_byteArray_ok_iff.mpr ⟨bytes,hp,hlen,rfl⟩,
      readEach_nil_eq_ok.mpr ⟨rfl,rfl⟩,rfl⟩,rfl⟩

theorem marshalResponse_eq (signature : ByteArrayOf signatureLen) :
    marshalResponse signature = .ok (beBytes 2 defaultVersion ++ signature.1) := by
  have hfields : getSerializedFields (messageTypeEnv.fields .signatureResponse) =
      .ok [byteArray signatureLen] := rfl
  have hdrop : (beBytes 2 defaultVersion ++ signature.1).drop 2 = signature.1 :=
    List.drop_left' (beBytes_length 2 defaultVersion)
  have hlen : (beBytes 2 defaultVersion ++ signature.1).length = 98 := by
    rw [List.length_append,beBytes_length,signature.2]
    rfl
  have hread : messageCodec.unmarshal messageDepth (.ptr (.struct .signatureResponse))
      (beBytes 2 defaultVersion ++ signature.1) = .ok (.ptr (.struct [.bytes signature.1])) := by
    rw [Manager.unmarshal_ok_iff,hlen,hdrop]
    refine ⟨by decide,by decide,unmarshal_ptr_ok_iff.mpr ⟨_,?_,rfl⟩⟩
    exact (unmarshal_byteStruct_iff 0 hfields).mpr ⟨_,(List.append_nil _).symm,signature.2,rfl⟩
  have hmarshal := Manager.marshal_of_unmarshal hread
  rwa [hdrop] at hmarshal

/-! ## The ID of a handler -/

def maxVarintLen64 : ℕ := 10

/-- The loop of `binary.Uvarint` at byte `i`: the value and the number of bytes read, which is
not positive if there is no value. -/
def uvarintLoop (i : ℕ) (x : UInt64) (shift : ℕ) : Bytes → UInt64 × ℤ
  | [] => (0,0)
  | b :: buf =>
    if i = maxVarintLen64 then (0,-(i + 1))
    else if b < 0x80 then
      if i = maxVarintLen64 - 1 ∧ b > 1 then (0,-(i + 1))
      else (x ||| b.toUInt64 <<< UInt64.ofNat shift,i + 1)
    else uvarintLoop (i + 1) (x ||| (b &&& 0x7f).toUInt64 <<< UInt64.ofNat shift) (shift + 7) buf

def uvarint (buf : Bytes) : UInt64 × ℤ := uvarintLoop 0 0 0 buf

/-- `msg[n:]`. -/
def sliceFrom (msg : Bytes) (n : ℤ) : Outcome String Bytes :=
  if 0 ≤ n ∧ n ≤ msg.length then .ok (msg.drop n.toNat)
  else .panic "slice bounds out of range"

/-- `ParseMessage`; `none` is a message without the ID of a handler. -/
def parseMessage (msg : Bytes) : Outcome String (Option (UInt64 × Bytes)) :=
  if (uvarint msg).2 ≤ 0 then .ok none
  else do
    let rest ← sliceFrom msg (uvarint msg).2
    .ok (some ((uvarint msg).1,rest))

theorem uvarintLoop_le (buf : Bytes) (i : ℕ) (x : UInt64) (shift : ℕ) :
    (uvarintLoop i x shift buf).2 ≤ i + buf.length := by
  induction buf generalizing i x shift with
  | nil =>
    change (0 : ℤ) ≤ _
    omega
  | cons b buf ih =>
    have hcons : ((b :: buf).length : ℤ) = buf.length + 1 := by simp
    rw [uvarintLoop]
    split
    · dsimp only
      omega
    · split
      · split
        · dsimp only
          omega
        · dsimp only
          omega
      · have hnext := ih (i + 1) (x ||| (b &&& 0x7f).toUInt64 <<< UInt64.ofNat shift) (shift + 7)
        push_cast at hnext
        omega

/-- Never more bytes are read than there are, so the slice does not panic. -/
theorem exists_parseMessage (msg : Bytes) : ∃ parsed, parseMessage msg = .ok parsed := by
  have hle := uvarintLoop_le msg 0 0 0
  unfold parseMessage
  split
  · exact ⟨none,rfl⟩
  · have hbounds : 0 ≤ (uvarint msg).2 ∧ (uvarint msg).2 ≤ msg.length := by
      unfold uvarint at *
      omega
    rw [sliceFrom,if_pos hbounds]
    exact ⟨some ((uvarint msg).1,_),rfl⟩

/-! ## The node -/

inductive Sent where
  | appResponse (nodeID : NodeID) (requestID : UInt32) (responseBytes : Bytes)
  | appError (nodeID : NodeID) (requestID : UInt32) (code : ℤ) (message : String)
  deriving DecidableEq

/-- What the handlers of a node are made of. -/
structure Host (H : Type) where
  computeHash256 : Bytes → ID
  idString : ID → String
  registry : Registry TypeName
  networkID : UInt32
  sourceChainID : ID
  /-- The bytes of a block hash, and the hash that a peer names by its bytes. -/
  toID : H → ID
  ofID : ID → H
  toID_ofID : ∀ id, toID (ofID id) = id
  getValidatorAndUptime : ID → Except String ValidatorState
  sign : UnsignedMessage → Except String Bytes
  /-- `proto.Unmarshal` of a `SignatureRequest`: the message and its justification. -/
  unmarshalSignatureRequest : Bytes → Except String (Bytes × Bytes)
  /-- `proto.Marshal` of a `SignatureResponse`. -/
  marshalSignatureResponse : Bytes → Except String Bytes
  sendError : Sent → Option String

inductive HandleError where
  | deadlineExceeded
  | other (message : String)

structure P2PError where
  code : ℤ
  message : String

def errUnexpectedCode : ℤ := -1

def errUnregisteredHandler : P2PError := ⟨-2,"unregistered handler"⟩

def signatureRequestHandlerID : UInt64 := 2

def noSignature : ByteArrayOf signatureLen := .copy []

namespace Host
variable {H : Type} [DecidableEq H] (h : Host H) (C : CometBFT H) (vm : VM H)
variable (get : ID → Except String Bytes)

def blockSigner : BlockSigner H :=
  ⟨h.computeHash256,h.idString,h.networkID,h.sourceChainID,h.toID,h.sign⟩

def acceptedBlock (id : ID) : Except String Unit :=
  match (getAcceptedBlock C vm (h.ofID id)).1 with
  | .ok _ => .ok ()
  | .error e => .error e.text
  | .panic p => .error p

def backend : Backend :=
  ⟨h.computeHash256,h.idString,h.registry,h.acceptedBlock C vm,h.getValidatorAndUptime,h.sign⟩

def verify (m : UnsignedMessage) : Outcome AppError Unit × VM H :=
  match (h.backend C vm).getMessage get m.id with
  | .ok _ => (.ok (),vm)
  | .error err =>
    if err ≠ .errNotFound then
      (.error ⟨parseErrCode,"failed to get message " ++ h.idString m.id ++ ": " ++ err.text⟩,vm)
    else match parsePayload m.payload with
      | .error e => (.error ⟨parseErrCode,"failed to parse payload: " ++ e.text⟩,vm)
      | .ok (.addressedCall p) => (.ofOption ((h.backend C vm).verifyOffchainAddressedCall p),vm)
      | .ok (.hash p) => match getAcceptedBlock C vm (h.ofID p.hash) with
        | (.ok _,vm) => (.ofOption (verifyBlockMessage (h.idString p.hash) (.ok ())),vm)
        | (.error e,vm) =>
          (.ofOption (verifyBlockMessage (h.idString p.hash) (.error e.text : Except String Unit)),
            vm)
        | (.panic p,vm) => (.panic p,vm)

def getMessageSignature (m : UnsignedMessage) : Outcome BackendError Bytes × VM H :=
  match h.verify C vm get m with
  | (.error err,vm) => (.error (.validate err.error),vm)
  | (.panic p,vm) => (.panic p,vm)
  | (.ok _,vm) => match (h.backend C vm).validateMessage get m with
    | .error e => (.error (.validate e.text),vm)
    | .ok _ => (.ofExcept id ((h.backend C vm).signMessage m),vm)

/-! ## The signature handler of the VM -/

/-- A response that can not be marshalled is dropped. -/
def respond (signature : ByteArrayOf signatureLen) : Option Bytes :=
  (marshalResponse signature).toOption

def onMessageSignatureRequest (messageID : ID) : Outcome HandleError (Option Bytes) × VM H :=
  match (h.backend C vm).getMessage get messageID with
  | .error _ => (.ok (respond noSignature),vm)
  | .ok unsignedMessage => match h.getMessageSignature C vm get unsignedMessage with
    | (.ok sig,vm) => (.ok (respond (.copy sig)),vm)
    | (.error _,vm) => (.ok (respond noSignature),vm)
    | (.panic p,vm) => (.panic p,vm)

def onBlockSignatureRequest (blockID : ID) : Outcome HandleError (Option Bytes) × VM H :=
  match h.blockSigner.getBlockSignature C vm (h.ofID blockID) with
  | (.ok sig,vm) => (.ok (respond (.copy sig)),vm)
  | (.error _,vm) => (.ok (respond noSignature),vm)
  | (.panic p,vm) => (.panic p,vm)

def handle : Request → Outcome HandleError (Option Bytes) × VM H
  | .messageSignature messageID => h.onMessageSignatureRequest C vm get messageID
  | .blockSignature blockID => h.onBlockSignatureRequest C vm blockID

/-! ## The handler of ACP-118 -/

def signatureToResponse (signature : Bytes) : Outcome P2PError Bytes :=
  .ofExcept (fun e => ⟨errUnexpectedCode,"failed to marshal response: " ++ e⟩)
    (h.marshalSignatureResponse signature)

/-- `AppRequest` of the handler; its cache of signatures is the one that is always empty. -/
def acp118AppRequest (requestBytes : Bytes) : Outcome P2PError Bytes × VM H :=
  match h.unmarshalSignatureRequest requestBytes with
  | .error e => (.error ⟨errUnexpectedCode,"failed to unmarshal request: " ++ e⟩,vm)
  | .ok (message,_) => match Warp.parseUnsignedMessage h.computeHash256 message with
    | .error e =>
      (.error ⟨errUnexpectedCode,"failed to parse warp unsigned message: " ++ e.text⟩,vm)
    | .ok msg => match h.verify C vm get msg with
      | (.error err,vm) => (.error ⟨err.code,err.message⟩,vm)
      | (.panic p,vm) => (.panic p,vm)
      | (.ok _,vm) => match h.sign msg with
        | .error e => (.error ⟨errUnexpectedCode,"failed to sign message: " ++ e⟩,vm)
        | .ok signature => (h.signatureToResponse signature,vm)

/-! ## Dispatch -/

/-- A call of the `AppSender`; the message counts as sent even if the call fails. -/
def sending (m : Sent) : Exec Sent String Unit := ⟨.ofOption (h.sendError m),[m]⟩

def labelNames : List String := ["op","handlerID"]

def observe (labels : List (String × String)) : Option String :=
  if labels.map Prod.fst = labelNames then none else some "inconsistent label cardinality"

def responderAppRequest (nodeID : NodeID) (requestID : UInt32) (request : Bytes) :
    Exec Sent String Unit × VM H :=
  match h.acp118AppRequest C vm get request with
  | (.ok appResponse,vm) => (h.sending (.appResponse nodeID requestID appResponse),vm)
  | (.error err,vm) => (h.sending (.appError nodeID requestID err.code err.message),vm)
  | (.panic p,vm) => (.lift (.panic p),vm)

def routerAppRequest (nodeID : NodeID) (requestID : UInt32) (request : Bytes) :
    Exec Sent String Unit × VM H :=
  let unregistered := h.sending (.appError nodeID requestID errUnregisteredHandler.code
    errUnregisteredHandler.message)
  match parseMessage request with
  | .error e => (.lift (.error e),vm)
  | .panic p => (.lift (.panic p),vm)
  | .ok none => (unregistered,vm)
  | .ok (some (handlerID,parsedMsg)) =>
    if handlerID = signatureRequestHandlerID then
      let (answer,vm) := h.responderAppRequest C vm get nodeID requestID parsedMsg
      (do
        answer
        .lift (.ofOption (observe [("op","app_request"),("handlerID",toString handlerID)])),vm)
    else (unregistered,vm)

end Host

/-! ## Deadlines -/

def minRequestHandlingDuration : ℤ := 100 * 1000000

/-- The nanoseconds until a time, cut off at the bounds of a `Duration`. -/
def timeUntil (deadline now : ℤ) : ℤ := max (-2 ^ 63) (min (2 ^ 63 - 1) (deadline - now))

/-- `calculateTimeUntilDeadline` with its three readings of the clock; `none` is an expired
request. -/
def calculateTimeUntilDeadline (now : Fin 3 → ℤ) (deadline : ℤ) : Option ℤ :=
  let bufferedDeadline := now 1 + (timeUntil deadline (now 0)).tdiv 2
  if timeUntil bufferedDeadline (now 2) < minRequestHandlingDuration then none
  else some bufferedDeadline

namespace Host
variable {H : Type} [DecidableEq H] (h : Host H) (C : CometBFT H) (vm : VM H)
variable (get : ID → Except String Bytes)

def appRequest (closed : Bool) (now : Fin 3 → ℤ) (nodeID : NodeID) (requestID : UInt32)
    (deadline : ℤ) (request : Bytes) : Exec Sent String Unit × VM H :=
  if closed then (pure (),vm)
  else match parseRequest request with
    | .error _ => h.routerAppRequest C vm get nodeID requestID request
    | .ok req => match calculateTimeUntilDeadline now deadline with
      | none => (pure (),vm)
      | some _ => match h.handle C vm get req with
        | (.ok (some responseBytes),vm) =>
          (h.sending (.appResponse nodeID requestID responseBytes),vm)
        | (.ok none,vm) => (pure (),vm)
        | (.error .deadlineExceeded,vm) => (pure (),vm)
        | (.error (.other e),vm) => (.lift (.error e),vm)
        | (.panic p,vm) => (.lift (.panic p),vm)

/-! ## What is signed -/

/-- The messages that a node may sign: a stored one, one that names a block of the chain, and
one that carries an uptime which the validator has. -/
def Vouched (s : MessageStore) (m : UnsignedMessage) : Prop :=
  m ∈ s.stored ∨
  (∃ p id, parsePayload m.payload = .ok (.hash p) ∧ p.hash = h.toID id ∧ OnChain C vm id) ∨
  (h.backend C vm).CarriesUptime m

/-- A response without a signature, or with one over a message that may be signed. -/
def Fair (s : MessageStore) (responseBytes : Bytes) : Prop :=
  marshalResponse noSignature = .ok responseBytes ∨
  ∃ m sig, h.sign m = .ok sig ∧ h.Vouched C vm s m ∧
    (marshalResponse (.copy sig) = .ok responseBytes ∨
      h.marshalSignatureResponse sig = .ok responseBytes)

def AsksFor (request : Bytes) (m : UnsignedMessage) : Prop :=
  ∃ handlerID parsedMsg message justification,
    parseMessage request = .ok (some (handlerID,parsedMsg)) ∧
    h.unmarshalSignatureRequest parsedMsg = .ok (message,justification) ∧
    Warp.parseUnsignedMessage h.computeHash256 message = .ok m

variable {h C vm get}

theorem verify_fst (m : UnsignedMessage) :
    (h.verify C vm get m).1 = .ofOption ((h.backend C vm).verify get m) := by
  unfold verify Backend.verify
  cases (h.backend C vm).getMessage get m.id with
  | ok m' => rfl
  | error err =>
    dsimp only
    by_cases hne : err ≠ .errNotFound
    · rw [if_pos hne,if_pos hne]
      rfl
    · rw [if_neg hne,if_neg hne]
      cases hpayload : parsePayload m.payload with
      | error e => rfl
      | ok payload =>
        cases payload with
        | addressedCall p => rfl
        | hash p =>
          have hpanic := getAcceptedBlock_isPanic (C := C) vm (h.ofID p.hash)
          dsimp only [backend,acceptedBlock]
          cases hacc : getAcceptedBlock C vm (h.ofID p.hash) with
          | mk outcome vm' =>
            cases outcome with
            | ok resp => rfl
            | error e => rfl
            | panic p => simp [hacc] at hpanic

variable (h C vm get) in
theorem verify_isPanic (m : UnsignedMessage) : (h.verify C vm get m).1.isPanic = false := by
  rw [verify_fst,Outcome.isPanic_ofOption]

theorem verify_ok {m : UnsignedMessage} (hok : (h.verify C vm get m).1 = .ok ()) :
    (h.backend C vm).verify get m = none := by
  rw [verify_fst] at hok
  cases hv : (h.backend C vm).verify get m with
  | none => rfl
  | some err => simp [hv] at hok

variable (h C vm get) in
theorem getMessageSignature_spec (m : UnsignedMessage) :
    (h.getMessageSignature C vm get m).1.isPanic = false ∧
      ∀ sig, (h.getMessageSignature C vm get m).1 = .ok sig → h.sign m = .ok sig := by
  have hpanic := verify_isPanic h C vm get m
  unfold getMessageSignature
  cases hv : h.verify C vm get m with
  | mk outcome vm' =>
    cases outcome with
    | panic p => simp [hv] at hpanic
    | error err =>
      refine ⟨rfl,?_⟩
      intro sig hsig
      cases hsig
    | ok u =>
      dsimp only
      cases (h.backend C vm').validateMessage get m with
      | error e =>
        refine ⟨rfl,?_⟩
        intro sig hsig
        cases hsig
      | ok u =>
        refine ⟨by simp,?_⟩
        intro sig hsig
        exact mapError_eq_ok (Outcome.ofExcept_eq_ok_iff.mp hsig)

/-! ## The handlers -/

theorem respond_eq (signature : ByteArrayOf signatureLen) :
    ∃ responseBytes, marshalResponse signature = .ok responseBytes ∧
      respond signature = some responseBytes :=
  ⟨_,marshalResponse_eq signature,by rw [respond,marshalResponse_eq]; rfl⟩

variable (h C vm) in
theorem respond_noSignature (s : MessageStore) :
    ∃ responseBytes, respond noSignature = some responseBytes ∧ h.Fair C vm s responseBytes := by
  obtain ⟨responseBytes,hmarshal,hresp⟩ := respond_eq noSignature
  exact ⟨responseBytes,hresp,.inl hmarshal⟩

theorem respond_signature {s : MessageStore} {m : UnsignedMessage} {sig : Bytes}
    (hsign : h.sign m = .ok sig) (hm : h.Vouched C vm s m) :
    ∃ responseBytes, respond (.copy sig) = some responseBytes ∧ h.Fair C vm s responseBytes := by
  obtain ⟨responseBytes,hmarshal,hresp⟩ := respond_eq (.copy sig)
  exact ⟨responseBytes,hresp,.inr ⟨m,sig,hsign,hm,.inl hmarshal⟩⟩

theorem getMessage_mem {b : Backend} {s : MessageStore} (hs : b.StoreValid s) {id : ID}
    {m : UnsignedMessage} (hm : b.getMessage s.get id = .ok m) : m ∈ s.stored := by
  unfold Backend.getMessage MessageStore.get at hm
  dsimp only at hm
  split at hm
  · cases hm
  · next m' hparse =>
    cases hm
    cases hdb : s.db id with
    | none =>
      rw [hdb] at hparse
      exact absurd hparse (Backend.parseUnsignedMessage_nil _ _)
    | some bytes =>
      rw [hdb,Option.getD_some] at hparse
      obtain ⟨m',hm',_,rfl⟩ := hs.of_db id bytes hdb
      have hinit := hs.initialized m' hm'
      rw [UnsignedMessage.Initialized,hparse] at hinit
      rw [Except.ok.inj hinit]
      exact hm'

theorem onMessageSignatureRequest_spec {s : MessageStore} (hs : (h.backend C vm).StoreValid s)
    (messageID : ID) : ∃ responseBytes,
      (h.onMessageSignatureRequest C vm s.get messageID).1 = .ok (some responseBytes) ∧
      h.Fair C vm s responseBytes := by
  obtain ⟨zeroBytes,hzero,hfair⟩ := respond_noSignature h C vm s
  unfold onMessageSignatureRequest
  cases hget : (h.backend C vm).getMessage s.get messageID with
  | error e => exact ⟨zeroBytes,congrArg _ hzero,hfair⟩
  | ok m =>
    obtain ⟨hpanic,hsig⟩ := getMessageSignature_spec h C vm s.get m
    dsimp only
    cases hsigned : h.getMessageSignature C vm s.get m with
    | mk outcome vm' =>
      rw [hsigned] at hpanic hsig
      cases outcome with
      | panic p => cases hpanic
      | error e => exact ⟨zeroBytes,congrArg _ hzero,hfair⟩
      | ok sig =>
        have hvouched : h.Vouched C vm s m := .inl (getMessage_mem hs hget)
        obtain ⟨responseBytes,hresp,hfair⟩ := respond_signature (hsig sig rfl) hvouched
        exact ⟨responseBytes,congrArg _ hresp,hfair⟩

theorem onBlockSignatureRequest_spec (s : MessageStore) (blockID : ID) : ∃ responseBytes,
      (h.onBlockSignatureRequest C vm blockID).1 = .ok (some responseBytes) ∧
      h.Fair C vm s responseBytes := by
  obtain ⟨zeroBytes,hzero,hfair⟩ := respond_noSignature h C vm s
  obtain ⟨hpanic,hsig⟩ := h.blockSigner.getBlockSignature_spec (C := C) vm (h.ofID blockID)
  unfold onBlockSignatureRequest
  cases hsigned : h.blockSigner.getBlockSignature C vm (h.ofID blockID) with
  | mk outcome vm' =>
    rw [hsigned] at hpanic hsig
    cases outcome with
    | panic p => cases hpanic
    | error e => exact ⟨zeroBytes,congrArg _ hzero,hfair⟩
    | ok sig =>
      obtain ⟨hon,p,m,hparse,hhash,hsign⟩ := hsig sig rfl
      have hvouched : h.Vouched C vm s m := .inr (.inl ⟨p,h.ofID blockID,hparse,hhash,hon⟩)
      obtain ⟨responseBytes,hresp,hfair⟩ := respond_signature hsign hvouched
      exact ⟨responseBytes,congrArg _ hresp,hfair⟩

theorem handle_spec {s : MessageStore} (hs : (h.backend C vm).StoreValid s) (req : Request) :
    ∃ responseBytes, (h.handle C vm s.get req).1 = .ok (some responseBytes) ∧
      h.Fair C vm s responseBytes := by
  cases req with
  | messageSignature messageID => exact onMessageSignatureRequest_spec hs messageID
  | blockSignature blockID => exact onBlockSignatureRequest_spec s blockID

/-- The handler of ACP-118 does not panic, and what it signs it has verified. -/
theorem acp118AppRequest_spec {s : MessageStore} (hs : (h.backend C vm).StoreValid s)
    (requestBytes : Bytes)
    (hcollision : ∀ message justification m,
      h.unmarshalSignatureRequest requestBytes = .ok (message,justification) →
      Warp.parseUnsignedMessage h.computeHash256 message = .ok m →
      (h.backend C vm).NoCollision s m) :
    (h.acp118AppRequest C vm s.get requestBytes).1.isPanic = false ∧
      ∀ responseBytes, (h.acp118AppRequest C vm s.get requestBytes).1 = .ok responseBytes →
        h.Fair C vm s responseBytes := by
  unfold acp118AppRequest
  cases hreq : h.unmarshalSignatureRequest requestBytes with
  | error e => exact ⟨rfl,fun _ hok => by cases hok⟩
  | ok request =>
    obtain ⟨message,justification⟩ := request
    dsimp only
    cases hparse : Warp.parseUnsignedMessage h.computeHash256 message with
    | error e => exact ⟨rfl,fun _ hok => by cases hok⟩
    | ok m =>
      have hpanic := verify_isPanic h C vm s.get m
      have hverify : (h.verify C vm s.get m).1 = .ok () → (h.backend C vm).verify s.get m = none :=
        verify_ok
      dsimp only
      cases hv : h.verify C vm s.get m with
      | mk outcome vm' =>
        rw [hv] at hpanic hverify
        cases outcome with
        | panic p => cases hpanic
        | error err => exact ⟨rfl,fun _ hok => by cases hok⟩
        | ok u =>
          dsimp only
          cases hsign : h.sign m with
          | error e => exact ⟨rfl,fun _ hok => by cases hok⟩
          | ok sig =>
            refine ⟨by simp [signatureToResponse],fun responseBytes hok => ?_⟩
            have hstored : m ∈ s.stored := (Backend.verify_eq_none_iff hs
              (initialized_of_parse hparse)
              (hcollision message justification m hreq hparse)).mp (hverify rfl)
            exact .inr ⟨m,sig,hsign,.inl hstored,.inr (Outcome.ofExcept_eq_ok_iff.mp hok)⟩

/-! ## The whole call -/

/-- A call that does not panic, fails with an error of the `AppSender` at most, and sends
nothing but errors and fair responses to the peer. -/
structure Safe (h : Host H) (C : CometBFT H) (vm : VM H) (s : MessageStore) (nodeID : NodeID)
    (requestID : UInt32) (call : Exec Sent String Unit) : Prop where
  noPanic : call.result.isPanic = false
  senderFailed : ∀ e, call.result = .error e → ∃ m ∈ call.log, h.sendError m = some e
  answers : ∀ m ∈ call.log, match m with
    | .appError nodeID' requestID' _ _ => nodeID' = nodeID ∧ requestID' = requestID
    | .appResponse nodeID' requestID' responseBytes =>
      nodeID' = nodeID ∧ requestID' = requestID ∧ h.Fair C vm s responseBytes

section
variable {s : MessageStore} {nodeID : NodeID} {requestID : UInt32}

theorem Safe.nothing : h.Safe C vm s nodeID requestID (pure ()) where
  noPanic := rfl
  senderFailed e he := by cases he
  answers m hm := by cases hm

theorem Safe.sending {m : Sent} (hm : match m with
    | .appError nodeID' requestID' _ _ => nodeID' = nodeID ∧ requestID' = requestID
    | .appResponse nodeID' requestID' responseBytes =>
      nodeID' = nodeID ∧ requestID' = requestID ∧ h.Fair C vm s responseBytes) :
    h.Safe C vm s nodeID requestID (h.sending m) where
  noPanic := Outcome.isPanic_ofOption _
  senderFailed e he := by
    refine ⟨m,List.mem_singleton_self m,?_⟩
    cases hsend : h.sendError m with
    | none => simp [Host.sending,hsend] at he
    | some e' => simpa [Host.sending,hsend] using he
  answers m' hm' := by
    obtain rfl := List.mem_singleton.mp hm'
    exact hm

theorem Safe.bind_pure {call : Exec Sent String Unit}
    (hcall : h.Safe C vm s nodeID requestID call) :
    h.Safe C vm s nodeID requestID (do call; .lift (.ok ())) := by
  have heq : (do call; .lift (.ok ()) : Exec Sent String Unit) = call := by
    obtain ⟨result,log⟩ := call
    cases result with
    | ok u => simp
    | error e => simp
    | panic p => simp
  rw [heq]
  exact hcall

theorem routerAppRequest_safe (hs : (h.backend C vm).StoreValid s) {request : Bytes}
    (hcollision : ∀ m, h.AsksFor request m → (h.backend C vm).NoCollision s m) :
    h.Safe C vm s nodeID requestID (h.routerAppRequest C vm s.get nodeID requestID request).1 := by
  obtain ⟨parsed,hparsed⟩ := exists_parseMessage request
  unfold routerAppRequest
  rw [hparsed]
  cases parsed with
  | none => exact .sending ⟨rfl,rfl⟩
  | some parsed =>
    obtain ⟨handlerID,parsedMsg⟩ := parsed
    dsimp only
    by_cases hid : handlerID = signatureRequestHandlerID
    · rw [if_pos hid]
      refine Safe.bind_pure ?_
      obtain ⟨hpanic,hfair⟩ := acp118AppRequest_spec hs parsedMsg
        fun message justification m hmessage hm =>
          hcollision m ⟨handlerID,parsedMsg,message,justification,hparsed,hmessage,hm⟩
      unfold responderAppRequest
      cases hanswer : h.acp118AppRequest C vm s.get parsedMsg with
      | mk outcome vm' =>
        rw [hanswer] at hpanic hfair
        cases outcome with
        | panic p => cases hpanic
        | error err => exact .sending ⟨rfl,rfl⟩
        | ok appResponse => exact .sending ⟨rfl,rfl,hfair appResponse rfl⟩
    · rw [if_neg hid]
      exact .sending ⟨rfl,rfl⟩

theorem appRequest_isSafe (hs : (h.backend C vm).StoreValid s) {request : Bytes}
    (hcollision : ∀ m, h.AsksFor request m → (h.backend C vm).NoCollision s m) (closed : Bool)
    (now : Fin 3 → ℤ) (deadline : ℤ) :
    h.Safe C vm s nodeID requestID
      (h.appRequest C vm s.get closed now nodeID requestID deadline request).1 := by
  unfold appRequest
  cases closed with
  | true => exact .nothing
  | false =>
    rw [if_neg Bool.false_ne_true]
    cases parseRequest request with
    | error e => exact routerAppRequest_safe hs hcollision
    | ok req =>
      dsimp only
      cases calculateTimeUntilDeadline now deadline with
      | none => exact .nothing
      | some bufferedDeadline =>
        obtain ⟨responseBytes,hresp,hfair⟩ := handle_spec hs req
        dsimp only
        cases hhandle : h.handle C vm s.get req with
        | mk outcome vm' =>
          rw [hhandle] at hresp
          cases hresp
          exact .sending ⟨rfl,rfl,hfair⟩

end

/-- Whatever a peer sends, at whatever deadline and whatever the caches and the stores hold, the
call does not panic, it fails only if the `AppSender` failed, and a signature in a response to the
peer is over a message that is stored, names a block of the chain or carries an uptime that the
validator has. The message that the request holds is taken not to have the hash of another
message that is stored. -/
theorem appRequest_safe (h : Host H) (C : CometBFT H) (vm : VM H) {s : MessageStore}
    (hs : (h.backend C vm).Reachable s) (closed : Bool) (now : Fin 3 → ℤ) (nodeID : NodeID)
    (requestID : UInt32) (deadline : ℤ) (request : Bytes)
    (hcollision : ∀ m, h.AsksFor request m → (h.backend C vm).NoCollision s m) :
    (∀ p, (h.appRequest C vm s.get closed now nodeID requestID deadline request).1.result ≠
      .panic p) ∧
    (∀ e, (h.appRequest C vm s.get closed now nodeID requestID deadline request).1.result =
      .error e → ∃ m ∈ (h.appRequest C vm s.get closed now nodeID requestID deadline request).1.log,
        h.sendError m = some e) ∧
    ∀ nodeID' requestID' responseBytes, .appResponse nodeID' requestID' responseBytes ∈
        (h.appRequest C vm s.get closed now nodeID requestID deadline request).1.log →
      nodeID' = nodeID ∧ requestID' = requestID ∧
      (marshalResponse noSignature = .ok responseBytes ∨
        ∃ m sig, h.sign m = .ok sig ∧
          (marshalResponse (.copy sig) = .ok responseBytes ∨
            h.marshalSignatureResponse sig = .ok responseBytes) ∧
          (m ∈ s.stored ∨
            (∃ p id, parsePayload m.payload = .ok (.hash p) ∧ p.hash = h.toID id ∧
              OnChain C vm id) ∨
            (h.backend C vm).CarriesUptime m)) := by
  have hsafe : h.Safe C vm s nodeID requestID
      (h.appRequest C vm s.get closed now nodeID requestID deadline request).1 :=
    appRequest_isSafe (Backend.storeValid_of_reachable hs) hcollision closed now deadline
  refine ⟨?_,hsafe.senderFailed,?_⟩
  · intro p hp
    have hpanic := hsafe.noPanic
    simp [hp] at hpanic
  · intro nodeID' requestID' responseBytes hsent
    obtain ⟨hnode,hrequest,hfair⟩ := hsafe.answers _ hsent
    refine ⟨hnode,hrequest,?_⟩
    rcases hfair with hzero | ⟨m,sig,hsign,hvouched,hresp⟩
    · exact .inl hzero
    · exact .inr ⟨m,sig,hsign,hresp,hvouched⟩

end Host

namespace Sample
open Landslide.Sample Warp.Sample

def host : Host Digest where
  computeHash256 := ID.ofBytes
  idString _ := "id"
  registry := messagesRegistry
  networkID := 1
  sourceChainID := zeroID
  toID
    | .content (.results (result :: _)) => ID.ofBytes result.data
    | _ => zeroID
  ofID id := .content (.results [⟨0,id.1,0,0⟩])
  toID_ofID := ID.ofBytes_val
  getValidatorAndUptime _ := .error "unknown validator"
  sign _ := .ok [7]
  unmarshalSignatureRequest bytes := .ok (bytes,[])
  marshalSignatureResponse signature := .ok signature
  sendError _ := some "no connection"

def oneMessage : MessageStore := (host.backend (comet []) (vm [])).step .empty (blockMessage,none)

def signatureRequest : Bytes := 2 :: blockMessage.bytes

def peerID : NodeID := .copy [1]

theorem signatureRequest_parsed :
    parseMessage signatureRequest = .ok (some (2,blockMessage.bytes)) := by decide +kernel

theorem signatureRequest_asksFor {m : UnsignedMessage} (hm : host.AsksFor signatureRequest m) :
    m = blockMessage := by
  obtain ⟨handlerID,parsedMsg,message,justification,hparsed,hmessage,hm⟩ := hm
  obtain ⟨_,rfl⟩ := Prod.mk.inj (Option.some.inj
    (Outcome.ok.inj (signatureRequest_parsed.symm.trans hparsed)))
  obtain ⟨rfl,_⟩ := Prod.mk.inj (Except.ok.inj hmessage)
  exact Except.ok.inj (hm.symm.trans blockMessage_initialized)

/-- The stored message is signed for the peer, and the error is the one of the sender. -/
theorem signatureRequest_safe :
    (host.appRequest (comet []) (vm []) oneMessage.get false ![0,0,0] peerID 1 0
      signatureRequest).1.result = .error "no connection" ∧
    ∃ m ∈ (host.appRequest (comet []) (vm []) oneMessage.get false ![0,0,0] peerID 1 0
      signatureRequest).1.log, host.sendError m = some "no connection" := by
  have hreached : (host.backend (comet []) (vm [])).Reachable oneMessage :=
    .step (.start rfl) blockMessage_initialized
  have hfails : (host.appRequest (comet []) (vm []) oneMessage.get false ![0,0,0] peerID 1 0
      signatureRequest).1.result = .error "no connection" := by
    rfl
  refine ⟨hfails,?_⟩
  refine (host.appRequest_safe (comet []) (vm []) hreached false ![0,0,0] peerID 1 0
    signatureRequest ?_).2.1 _ hfails
  intro m hm m' hm' _
  rw [signatureRequest_asksFor hm]
  rcases List.mem_cons.mp hm' with rfl | hm'
  · rfl
  · cases hm'

end Sample
end Landslide.Peer
