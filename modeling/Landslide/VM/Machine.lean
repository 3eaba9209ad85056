import Landslide.Chain.Persistence
import Landslide.Chain.Codec
import Landslide.Lib.Transition
import Landslide.VM.WrappedBlocks

/-! # The virtual machine

The block operations that the consensus engine calls. Each of them takes the state of
the VM to its outcome and the state after it. An ID in a request is a byte string; one
of the wrong length has no digest and is `none`.
-/
namespace Landslide
variable {H : Type}

structure VM (H : Type) where
  state : State H
  wrappedBlocks : WrappedBlocksStorage H
  disk : Disk H
  config : ExecutorConfig

inductive VMError (H : Type) where
  | callee (e : String)
  | invalidHashLen
  | notFound
  | unexpectedStatus (id : H) (status : Status)
  | invalidBlock (e : BlockError H)
  | exec (e : ExecError H)
  | encodeAccepted (e : String)
  deriving DecidableEq

def VMError.text : VMError H → String
  | callee e => e
  | invalidHashLen => "%w: expected 32 bytes but got %d"
  | notFound => "not found"
  | unexpectedStatus .. => "found unexpected status for blk %s: %s"
  | invalidBlock e => e.text
  | exec e => e.text
  | encodeAccepted _ => "failed to encode block with status ACCEPTED: %w"

def proposerAddress : Bytes := List.replicate 20 0

/-! ## Responses -/

/-- The parent of a block without one is the zero ID, here `none`. -/
structure InitializeResponse (H : Type) where
  lastAcceptedID : Option H
  lastAcceptedParentID : Option H
  height : ℕ
  bytes : Bytes
  timestamp : ℤ

structure BuildBlockResponse (H : Type) where
  id : Option H
  parentID : Option H
  bytes : Bytes
  height : ℕ
  timestamp : ℤ

structure ParseBlockResponse (H : Type) where
  id : Option H
  parentID : Option H
  status : Status
  height : ℕ
  timestamp : ℤ
  deriving DecidableEq

inductive GetBlockResponse (H : Type) where
  | notFound
  | found (parentID : Option H) (bytes : Bytes) (status : Status) (height : ℕ) (timestamp : ℤ)
  deriving DecidableEq

structure BuildEnv (H : Type) extends ProposalEnv H where
  now : ℕ → ℤ
  randBytes : ℕ → Bytes
  randBytes_length : ∀ i, (randBytes i).length = CometBFT.maxSignatureSize

section
variable [DecidableEq H] (C : CometBFT H)

def toID (id : Option H) : Outcome (VMError H) H :=
  match id with
  | some id => .ok id
  | none => .error .invalidHashLen

/-! ## Starting -/

/-- `Initialize` from the point where the handshake has succeeded and the state has
been loaded from the state store. -/
def initializeVM (config : ExecutorConfig) (penv : ProposalEnv H) (aenv : AcceptEnv H)
    (disk : Disk H) : Exec (Write H) (VMError H) (State H × InitializeResponse H) := do
  let s := disk.stateStore.state
  let (blk,newstate) ← if s.lastBlockHeight > 0 then
      match disk.blockStore.loadBlock s.lastBlockHeight with
      | some blk => pure (blk,s)
      -- a block that is not in the store is nil and cannot be encoded
      | none => Exec.lift (.error (.encodeAccepted "nil Block"))
    else do
      let blk ← Exec.lift ((createProposalBlock C config penv disk.stateStore
        (s.lastBlockHeight + 1) s ⟨0,0,.zero H,[]⟩ proposerAddress).mapError .exec)
      let newstate ← (acceptBlock C aenv disk s blk).mapError .exec
      pure (blk,newstate)
  let blockBytes ← Exec.lift (.ofExcept .encodeAccepted (encodeBlockWithStatus C blk .accepted))
  pure (newstate,
    { lastAcceptedID := C.hash blk
      lastAcceptedParentID := blk.header.lastBlockID.hash
      height := uint64 blk.header.height
      bytes := blockBytes
      timestamp := blk.header.time })

structure StartedWith (config : ExecutorConfig) (disk : Disk H) (resp : InitializeResponse H)
    (vm : VM H) : Prop where
  run : ∃ penv aenv log, initializeVM C config penv aenv disk = ⟨.ok (vm.state,resp),log⟩ ∧
    vm.disk = disk.replay log
  wrappedBlocks : vm.wrappedBlocks = .new C
  config : vm.config = config

/-- A VM that `Initialize` has just returned from. -/
def Started (config : ExecutorConfig) (disk : Disk H) (vm : VM H) : Prop :=
  ∃ resp, StartedWith C config disk resp vm

/-! ## Building -/

/-- The commit that `BuildBlock` makes up: every current validator votes for nil. -/
def fabricatedCommit (env : BuildEnv H) (s : State H) : ExtendedCommit H where
  height := s.lastBlockHeight
  round := 0
  blockID := s.lastBlockID
  extendedSignatures := s.validators.mapIdx (fun i v =>
    ⟨⟨.nil,v.address,env.now i,env.randBytes i⟩,[],[]⟩)

/-- The block `BuildBlock` works on. -/
def proposeBlock (env : BuildEnv H) (vm : VM H) : Outcome (ExecError H) (Block H) :=
  createProposalBlock C vm.config env.toProposalEnv vm.disk.stateStore
    (vm.state.lastBlockHeight + 1) vm.state (fabricatedCommit env vm.state) proposerAddress

def buildBlock (env : BuildEnv H) (vm : VM H) :
    Outcome (VMError H) (BuildBlockResponse H) × VM H :=
  let built : Outcome (VMError H) (Block H × Bytes × H) := do
    let blk ← (proposeBlock C env vm).mapError .exec
    let blkBytes ← .ofExcept .callee (encodeBlockWithStatus C blk .processing)
    let blkID ← toID (C.hash blk)
    pure (blk,blkBytes,blkID)
  match built with
  | .error e => (.error e,vm)
  | .panic p => (.panic p,vm)
  | .ok (blk,blkBytes,blkID) =>
    let (wblk,s) := vm.wrappedBlocks.allocate blk .processing
    let s := { s with
      unverifiedBlocks := s.unverifiedBlocks.put blkID wblk
      missingBlocks := s.missingBlocks.evict blkID }
    (.ok
      { id := C.hash blk
        parentID := blk.header.lastBlockID.hash
        bytes := blkBytes
        height := uint64 blk.header.height
        timestamp := blk.header.time },
      { vm with wrappedBlocks := s })

/-! ## Parsing and looking up -/

def parseBlockResponse (blk : Block H) (status : Status) : ParseBlockResponse H where
  id := C.hash blk
  parentID := blk.header.lastBlockID.hash
  status := status
  height := uint64 blk.header.height
  timestamp := blk.header.time

/-- `ParseBlock` once the ID is known. When the ID came from the cache of bytes, the
block was not decoded: it is nil and its status is the zero value. -/
def parseBlockID (s : WrappedBlocksStorage H) (blkID : H) (decoded : Option (Block H × Status)) :
    Outcome (VMError H) (ParseBlockResponse H) × WrappedBlocksStorage H :=
  match s.getCachedBlock blkID with
  | (some wblk,s) => (.ok (parseBlockResponse C wblk.block (s.status wblk.addr)),s)
  | (none,s) =>
    match decoded with
    | none => (.error (.unexpectedStatus blkID .unspecified),s)
    | some (blk,blkStatus) =>
      let (wblk,s') := s.allocate blk blkStatus
      match s'.putByStatus blkID wblk blkStatus with
      | none => (.error (.unexpectedStatus blkID blkStatus),s)
      | some s' => (.ok (parseBlockResponse C blk blkStatus),
          { s' with missingBlocks := s'.missingBlocks.evict blkID })

def parseBlock (vm : VM H) (bytes : Bytes) :
    Outcome (VMError H) (ParseBlockResponse H) × VM H :=
  let (cachedID,bytesToIDCache) := vm.wrappedBlocks.bytesToIDCache.get bytes
  let s := { vm.wrappedBlocks with bytesToIDCache := bytesToIDCache }
  match cachedID with
  | some blkID =>
    let (resp,s) := parseBlockID C s blkID none
    (resp,{ vm with wrappedBlocks := s })
  | none =>
    match decodeBlockWithStatus C bytes with
    | .error e => (.error (.callee e),{ vm with wrappedBlocks := s })
    | .ok (blk,blkStatus) =>
      match C.hash blk with
      | none => (.error .invalidHashLen,{ vm with wrappedBlocks := s })
      | some blkID =>
        let s := { s with bytesToIDCache := s.bytesToIDCache.put bytes blkID }
        let (resp,s) := parseBlockID C s blkID (some (blk,blkStatus))
        (resp,{ vm with wrappedBlocks := s })

/-- `BatchedParseBlock` stops at the first error. -/
def batchedParseBlock (vm : VM H) :
    List Bytes → Outcome (VMError H) (List (ParseBlockResponse H)) × VM H
  | [] => (.ok [],vm)
  | bytes :: rest =>
    match parseBlock C vm bytes with
    | (.error e,vm) => (.error e,vm)
    | (.panic p,vm) => (.panic p,vm)
    | (.ok resp,vm) =>
      let (responses,vm) := batchedParseBlock vm rest
      (responses >>= fun responses => .ok (resp :: responses),vm)

/-- `GetBlock` once a wrapped block is at hand. -/
def getWrappedBlock (s : WrappedBlocksStorage H) (blkID : H) (wblk : WrappedBlock H) :
    Outcome (VMError H) (GetBlockResponse H) × WrappedBlocksStorage H :=
  let blk := wblk.block
  let blkStatus := s.status wblk.addr
  match s.putByStatus blkID wblk blkStatus with
  | none => (.error (.unexpectedStatus blkID blkStatus),s)
  | some s =>
    match encodeBlockWithStatus C blk blkStatus with
    | .error e => (.error (.callee e),s)
    | .ok blockBytes => (.ok (.found blk.header.lastBlockID.hash blockBytes blkStatus
        (uint64 blk.header.height) blk.header.time),s)

def getBlock (vm : VM H) (id : Option H) : Outcome (VMError H) (GetBlockResponse H) × VM H :=
  match id with
  | none => (.error .invalidHashLen,vm)
  | some blkID =>
    match vm.wrappedBlocks.getCachedBlock blkID with
    | (some wblk,s) =>
      let (resp,s) := getWrappedBlock C s blkID wblk
      (resp,{ vm with wrappedBlocks := s })
    | (none,s) =>
      let (missing,missingBlocks) := s.missingBlocks.get blkID
      let s := { s with missingBlocks := missingBlocks }
      match missing with
      | some () => (.ok .notFound,{ vm with wrappedBlocks := s })
      | none =>
        match vm.disk.blockStore.loadBlockByHash C blkID with
        | none => (.ok .notFound,
            { vm with wrappedBlocks :=
              { s with missingBlocks := s.missingBlocks.put blkID () } })
        | some blk =>
          let (wblk,s) := s.allocate blk .accepted
          let (resp,s) := getWrappedBlock C s blkID wblk
          (resp,{ vm with wrappedBlocks := s })

/-! ## Deciding -/

/-- The answer is the time of the block. -/
def blockVerify (vm : VM H) (bytes : Bytes) : Outcome (VMError H) ℤ × VM H :=
  let verified : Outcome (VMError H) (Block H × Status × H) := do
    let (blk,blkStatus) ← .ofExcept .callee (decodeBlockWithStatus C bytes)
    .ofOption ((validateBlock C vm.state blk).map .invalidBlock)
    let blkID ← toID (C.hash blk)
    pure (blk,blkStatus,blkID)
  match verified with
  | .error e => (.error e,vm)
  | .panic p => (.panic p,vm)
  | .ok (blk,blkStatus,blkID) =>
    let (wblk,s) := vm.wrappedBlocks.allocate blk blkStatus
    let s := { s with
      unverifiedBlocks := s.unverifiedBlocks.evict blkID
      verifiedBlocks := Function.update s.verifiedBlocks blkID (some wblk) }
    (.ok blk.header.time,{ vm with wrappedBlocks := s })

def WrappedBlocksStorage.accept (s : WrappedBlocksStorage H) (blkID : H) (blk : Block H) :
    WrappedBlocksStorage H :=
  let s := { s with
    verifiedBlocks := Function.update s.verifiedBlocks blkID none
    missingBlocks := s.missingBlocks.evict blkID
    unverifiedBlocks := s.unverifiedBlocks.evict blkID }
  let (wblk,s) := s.allocate blk .accepted
  { s with decidedBlocks := s.decidedBlocks.put blkID wblk }

/-- `BlockAccept` with the durable writes it makes. -/
def blockAccept (env : AcceptEnv H) (vm : VM H) (id : Option H) :
    Exec (Write H) (VMError H) Unit × VM H :=
  match id with
  | none => (Exec.lift (.error .invalidHashLen),vm)
  | some blkID =>
    match vm.wrappedBlocks.getCachedBlock blkID with
    | (none,s) => (Exec.lift (.error .notFound),{ vm with wrappedBlocks := s })
    | (some wblk,s) =>
      let accepted := acceptBlock C env vm.disk vm.state wblk.block
      let vm := { vm with wrappedBlocks := s, disk := vm.disk.replay accepted.log }
      match accepted.result with
      | .error e => (⟨.error (.exec e),accepted.log⟩,vm)
      | .panic p => (⟨.panic p,accepted.log⟩,vm)
      | .ok newstate => (⟨.ok (),accepted.log⟩,
          { vm with state := newstate, wrappedBlocks := s.accept blkID wblk.block })

def blockReject (vm : VM H) (id : Option H) : Outcome (VMError H) Unit × VM H :=
  match id with
  | none => (.error .invalidHashLen,vm)
  | some blkID =>
    match vm.wrappedBlocks.getCachedBlock blkID with
    | (none,s) => (.error .notFound,{ vm with wrappedBlocks := s })
    | (some blk,s) =>
      let s := { s with
        status := Function.update s.status blk.addr .rejected
        verifiedBlocks := Function.update s.verifiedBlocks blkID none
        decidedBlocks := s.decidedBlocks.put blkID blk }
      (.ok (),{ vm with wrappedBlocks := s })

/-! ## Runs -/

inductive Op (H : Type) where
  | buildBlock (env : BuildEnv H)
  | parseBlock (bytes : Bytes)
  | batchedParseBlock (request : List Bytes)
  | getBlock (id : Option H)
  | blockVerify (bytes : Bytes)
  | blockAccept (env : AcceptEnv H) (id : Option H)
  | blockReject (id : Option H)
  | flush

/-- The state after a call, whatever the call answered. -/
def VM.step (vm : VM H) : Op H → VM H
  | .buildBlock env => (buildBlock C env vm).2
  | .parseBlock bytes => (parseBlock C vm bytes).2
  | .batchedParseBlock request => (batchedParseBlock C vm request).2
  | .getBlock id => (getBlock C vm id).2
  | .blockVerify bytes => (blockVerify C vm bytes).2
  | .blockAccept env id => (blockAccept C env vm id).2
  | .blockReject id => (blockReject vm id).2
  | .flush => { vm with wrappedBlocks := vm.wrappedBlocks.flush }

end
end Landslide
