import Landslide.VM.Invariants

/-! # The summaries of the last accepted block

`Initialize` and `SetState` tell the engine the last accepted block: its ID, the ID of
its parent, its height, its time and its bytes. `SetState` sends the bytes of the state in
the place of those of the block, and both of them write the missing parent of the first
block as 32 zero bytes, where `ParseBlock` leaves the field empty.
-/
namespace Landslide
variable {H : Type} [DecidableEq H] {C : CometBFT H}

/-! ## IDs of parents on the wire -/

/-- An ID in a response: no bytes, 32 zero bytes, or a digest. -/
inductive WireID (H : Type) where
  | empty
  | zero
  | digest (id : H)
  deriving DecidableEq

def parentHash (parent : Option H) : WireID H :=
  match parent with
  | none => .zero
  | some id => .digest id

/-- A hash put into a response as it is. -/
def hashField (hash : Option H) : WireID H :=
  match hash with
  | none => .empty
  | some id => .digest id

omit [DecidableEq H] in
theorem hashField_eq_parentHash_iff {parent : Option H} :
    hashField parent = parentHash parent ↔ parent ≠ none := by
  cases parent <;> simp [hashField,parentHash]

/-! ## SetState -/

/-- `vm.State`; the wire format admits numbers without a name. -/
inductive EngineState where
  | unspecified
  | stateSyncing
  | bootstrapping
  | normalOp
  | other (n : ℤ)
  deriving DecidableEq

inductive SetStateError where
  | unknownState
  | notFound
  deriving DecidableEq

def SetStateError.text : SetStateError → String
  | unknownState => "unknown state"
  | notFound => "not found"

/-- The fields are those of the response of `Initialize`. -/
abbrev SetStateResponse (H : Type) := InitializeResponse H

/-- `SetState`, with `State.Bytes` of CometBFT as a parameter. -/
def setState (C : CometBFT H) (stateBytes : State H → Bytes) (vm : VM H) (req : EngineState) :
    Except SetStateError (SetStateResponse H) :=
  if req = .bootstrapping ∨ req = .normalOp then
    match vm.disk.blockStore.loadBlock vm.state.lastBlockHeight with
    | none => .error .notFound
    | some blk => .ok
      { lastAcceptedID := C.hash blk
        lastAcceptedParentID := blk.header.lastBlockID.hash
        height := uint64 blk.header.height
        bytes := stateBytes vm.state
        timestamp := blk.header.time }
  else .error .unknownState

/-! ## The codec -/

/-- A consistent block is decoded from its encoding as it was, and so is the wrapper of
an accepted block. -/
structure CometBFT.RoundTripRules (C : CometBFT H) : Prop where
  decodeBlock : ∀ {b data}, C.validateBasic b = none → encodeBlock C b = .ok data →
    Landslide.decodeBlock C data = .ok b
  jsonUnmarshal : ∀ {block data}, C.jsonMarshal ⟨block,.accepted⟩ = .ok data →
    C.jsonUnmarshal data = .ok ⟨block,.accepted⟩

omit [DecidableEq H] in
theorem decodeBlockWithStatus_encode (hR : C.RoundTripRules) {b : Block H} {data : Bytes}
    (hv : C.validateBasic b = none) (h : encodeBlockWithStatus C b .accepted = .ok data) :
    decodeBlockWithStatus C data = .ok (b,.accepted) := by
  obtain ⟨block,hb,hdata⟩ := bind_eq_ok h
  unfold decodeBlockWithStatus
  rw [hR.jsonUnmarshal hdata]
  change (decodeBlock C block >>= fun b => pure (b,Status.accepted)) = _
  rw [hR.decodeBlock hv hb]
  rfl

/-- The protobuf encoding of a state has control characters near its beginning that no
JSON text has, so it is not the encoding of a block. -/
def NotABlock (C : CometBFT H) (stateBytes : State H → Bytes) : Prop :=
  ∀ s, ∃ e, decodeBlockWithStatus C (stateBytes s) = .error e

/-! ## What a summary is about -/

structure Summarises (C : CometBFT H) (resp : InitializeResponse H) (b : Block H) : Prop where
  id : resp.lastAcceptedID = C.hash b
  parent : resp.lastAcceptedParentID = b.header.lastBlockID.hash
  height : resp.height = uint64 b.header.height
  timestamp : resp.timestamp = b.header.time

theorem initializeVM_summary {config : ExecutorConfig} {penv : ProposalEnv H} {aenv : AcceptEnv H}
    {disk : Disk H} {s : State H} {resp : InitializeResponse H} {log : List (Write H)}
    (h : initializeVM C config penv aenv disk = ⟨.ok (s,resp),log⟩) :
    ∃ b, Summarises C resp b ∧ encodeBlockWithStatus C b .accepted = .ok resp.bytes ∧
      (disk.blockStore.loadBlock disk.stateStore.state.lastBlockHeight = some b ∨
        (acceptBlock C aenv disk disk.stateStore.state b).result = .ok s) := by
  obtain ⟨b,bytes,he,rfl,⟨_,hb,_⟩ | ⟨_,_,ha⟩⟩ := initializeVM_cases h
  · exact ⟨b,⟨rfl,rfl,rfl,rfl⟩,he,.inl hb⟩
  · exact ⟨b,⟨rfl,rfl,rfl,rfl⟩,he,.inr (congrArg Exec.result ha)⟩

/-- The bytes in the response of `Initialize` are those of the block it is about. -/
theorem startedWith_summary (hR : C.RoundTripRules) {config : ExecutorConfig} {disk : Disk H}
    (hdisk : DiskValid C disk)
    (hvalid : ∀ sb ∈ disk.blockStore.blocks, C.validateBasic sb.block = none)
    {resp : InitializeResponse H} {vm : VM H} (h : StartedWith C config disk resp vm) :
    ∃ b, Summarises C resp b ∧ decodeBlockWithStatus C resp.bytes = .ok (b,.accepted) := by
  obtain ⟨penv,aenv,log,hinit,_⟩ := h.run
  obtain ⟨b,hsum,henc,hb⟩ := initializeVM_summary hinit
  refine ⟨b,hsum,decodeBlockWithStatus_encode hR ?_ henc⟩
  rcases hb with hb | hb
  · obtain ⟨sb,hsb,rfl,_⟩ := BlockStore.loadBlock_eq_some hb
    exact hvalid sb (BlockStore.mem_held_iff.mp hsb).1
  · obtain ⟨_,_,_,hc,_,_⟩ := acceptBlock_ok hdisk.base hb
    exact hc.valid.basic

omit [DecidableEq H] in
theorem setState_summary {stateBytes : State H → Bytes} {vm : VM H} {req : EngineState}
    {resp : SetStateResponse H} (h : setState C stateBytes vm req = .ok resp) :
    (∃ b, Summarises C resp b) ∧ resp.bytes = stateBytes vm.state := by
  unfold setState at h
  split at h
  · cases hb : vm.disk.blockStore.loadBlock vm.state.lastBlockHeight with
    | none => simp [hb] at h
    | some b =>
      simp only [hb,Except.ok.injEq] at h
      subst h
      exact ⟨⟨b,rfl,rfl,rfl,rfl⟩,rfl⟩
  · cases h

/-! ## Parsing a summary -/

/-- `ParseBlock` of the bytes in a response gives back what the response says. -/
def SelfConsistent (C : CometBFT H) (vm : VM H) (resp : InitializeResponse H) : Prop :=
  ∃ parsed, (parseBlock C vm resp.bytes).1 = .ok parsed ∧ parsed.id = resp.lastAcceptedID ∧
    hashField parsed.parentID = parentHash resp.lastAcceptedParentID ∧
    parsed.height = resp.height ∧ parsed.timestamp = resp.timestamp ∧ parsed.status = .accepted

omit [DecidableEq H] in
theorem Summarises.of_header_eq {resp : InitializeResponse H} {b b' : Block H}
    (h : Summarises C resp b) (hb : b'.header = b.header) : Summarises C resp b' := by
  refine ⟨h.id.trans ?_,h.parent.trans ?_,h.height.trans ?_,h.timestamp.trans ?_⟩
  · simp [CometBFT.hash,hb]
  · rw [hb]
  · rw [hb]
  · rw [hb]

omit [DecidableEq H] in
theorem Summarises.agrees_iff {resp : InitializeResponse H} {b : Block H} (h : Summarises C resp b)
    (status : Status) :
    ((parseBlockResponse C b status).id = resp.lastAcceptedID ∧
      hashField (parseBlockResponse C b status).parentID = parentHash resp.lastAcceptedParentID ∧
      (parseBlockResponse C b status).height = resp.height ∧
      (parseBlockResponse C b status).timestamp = resp.timestamp ∧
      (parseBlockResponse C b status).status = .accepted) ↔
      resp.lastAcceptedParentID ≠ none ∧ status = .accepted := by
  simp only [parseBlockResponse,h.id,h.parent,h.height,h.timestamp,true_and]
  rw [hashField_eq_parentHash_iff]

/-- When the bytes of a summary are those of its block, parsing them gives the summary
back if and only if the block has a parent, and the caches either hold it as accepted or
know neither the block nor the bytes. -/
theorem Summarises.selfConsistent_iff (hH : C.HashRules) {vm : VM H}
    (hvm : CacheValid C vm.wrappedBlocks) {resp : InitializeResponse H} {b : Block H}
    (h : Summarises C resp b) (hd : decodeBlockWithStatus C resp.bytes = .ok (b,.accepted)) :
    SelfConsistent C vm resp ↔ resp.lastAcceptedParentID ≠ none ∧
      ∃ id, resp.lastAcceptedID = some id ∧
        ((∃ w, vm.wrappedBlocks.cached id = some w ∧
            vm.wrappedBlocks.status w.addr = .accepted) ∨
          (vm.wrappedBlocks.cached id = none ∧
            vm.wrappedBlocks.bytesToIDCache.peek resp.bytes = none)) := by
  constructor
  · rintro ⟨parsed,hr,hagree⟩
    obtain ⟨id,b',st,hd',hb,hcase⟩ := parseBlock_ok hvm hr
    rw [hd] at hd'
    cases hd'
    rcases hcase with ⟨w,hw,rfl⟩ | ⟨hp,rfl⟩
    · have hheader := hH.header_eq (hvm.hash id w (WrappedBlocksStorage.held_of_cached hw)) hb
      obtain ⟨hparent,hst⟩ := ((h.of_header_eq hheader).agrees_iff _).mp hagree
      exact ⟨hparent,id,h.id.trans hb,.inl ⟨w,hw,hst⟩⟩
    · exact ⟨((h.agrees_iff _).mp hagree).1,id,h.id.trans hb,.inr ⟨hp.notHeld,hp.notCached⟩⟩
  · rintro ⟨hparent,id,hid,hcase⟩
    have hb : C.hash b = some id := h.id.symm.trans hid
    rcases hcase with ⟨w,hw,hst⟩ | ⟨hn,hbytes⟩
    · have hheader := hH.header_eq (hvm.hash id w (WrappedBlocksStorage.held_of_cached hw)) hb
      exact ⟨_,parseBlock_of_cached hvm hd hb hw,
        ((h.of_header_eq hheader).agrees_iff _).mpr ⟨hparent,hst⟩⟩
    · have hp : ParsedBlock C vm resp.bytes id b .accepted := ⟨hbytes,hn,hd,hb,.inl rfl⟩
      exact ⟨_,hp.parseBlock_eq,(h.agrees_iff _).mpr ⟨hparent,rfl⟩⟩

theorem not_selfConsistent_of_not_decoded {vm : VM H} (hvm : CacheValid C vm.wrappedBlocks)
    {resp : InitializeResponse H} {e : String} (h : decodeBlockWithStatus C resp.bytes = .error e) :
    ¬SelfConsistent C vm resp := by
  rintro ⟨parsed,hr,_⟩
  obtain ⟨_,_,_,hd,_⟩ := parseBlock_ok hvm hr
  rw [h] at hd
  cases hd

/-- In every state of every run, the response of `Initialize` is what `ParseBlock` makes
of its bytes if and only if the last accepted block had a parent, and the caches hold it
as accepted or know neither the block nor the bytes. The response of `SetState` never is. -/
theorem summaries_selfConsistent_iff (hB : C.BlockRules) (hC : C.CodecRules) (hH : C.HashRules)
    (hR : C.RoundTripRules) {stateBytes : State H → Bytes} (hS : NotABlock C stateBytes)
    {config : ExecutorConfig} {disk : Disk H} (hdisk : DiskValid C disk)
    (hvalid : ∀ sb ∈ disk.blockStore.blocks, C.validateBasic sb.block = none)
    {resp : InitializeResponse H} {vm : VM H}
    (h : Reaches (StartedWith C config disk resp) (fun _ _ => True) (VM.step C) vm) :
    (SelfConsistent C vm resp ↔ resp.lastAcceptedParentID ≠ none ∧
      ∃ id, resp.lastAcceptedID = some id ∧
        ((∃ w, vm.wrappedBlocks.cached id = some w ∧
            vm.wrappedBlocks.status w.addr = .accepted) ∨
          (vm.wrappedBlocks.cached id = none ∧
            vm.wrappedBlocks.bytesToIDCache.peek resp.bytes = none))) ∧
      ∀ req r, setState C stateBytes vm req = .ok r → (SelfConsistent C vm r ↔ False) := by
  have hvm : VMValid C vm := h.invariant (fun _ hs => vmValid_started hB hdisk ⟨resp,hs⟩)
    (fun _ op hvm _ => vmValid_step hC hvm op)
  obtain ⟨b,hsum,hd⟩ : ∃ b, Summarises C resp b ∧
      decodeBlockWithStatus C resp.bytes = .ok (b,.accepted) :=
    h.invariant (P := fun _ => ∃ b, Summarises C resp b ∧
      decodeBlockWithStatus C resp.bytes = .ok (b,.accepted))
      (fun _ hs => startedWith_summary hR hdisk hvalid hs) (fun _ _ hb _ => hb)
  refine ⟨hsum.selfConsistent_iff hH hvm.caches hd,fun req r hr => iff_of_false ?_ id⟩
  obtain ⟨_,hbytes⟩ := setState_summary hr
  obtain ⟨e,he⟩ := hS vm.state
  exact not_selfConsistent_of_not_decoded hvm.caches (hbytes ▸ he)

theorem Symbolic.roundTripRules {catalogue : List (Block Digest)} (hlen : catalogue.length ≤ 256) :
    (symbolic catalogue).RoundTripRules where
  decodeBlock {b data} hv h := by
    obtain ⟨p,hp,hdata⟩ := bind_eq_ok h
    cases hp
    simp only [symbolic] at hdata
    split at hdata
    · next i hi =>
      cases hdata
      obtain ⟨hlt,hb,_⟩ := List.findIdx?_eq_some_iff_getElem.mp hi
      have hindex : (UInt8.ofNat i).toNat = i := by
        rw [UInt8.toNat_ofNat']
        omega
      have hget : catalogue[i]? = some b := by
        rw [List.getElem?_eq_getElem hlt]
        simpa using hb
      have hread : (symbolic catalogue).unmarshalBlock [UInt8.ofNat i] = .ok b := by
        simp only [symbolic,hindex,hget]
      unfold Landslide.decodeBlock
      rw [hread]
      exact blockFromProto_of_valid catalogue hv
    · cases hdata
  jsonUnmarshal {block data} h := by
    cases h
    rfl

namespace Sample

/-- `State.Bytes` of a state with a version, cut off after the tag of the first field. -/
def stateBytes (_ : State Digest) : Bytes := [10]

theorem notABlock (others : List (Block Digest)) : NotABlock (comet others) stateBytes :=
  fun _ => ⟨_,rfl⟩

def firstResponse : InitializeResponse Digest := ⟨some firstID,none,1,[3,0],1000⟩

/-- Neither the response of the first `Initialize` nor that of `SetState` after it is
what parsing its bytes gives. The bytes of the latter are refused. -/
theorem summaries_inconsistent :
    StartedWith (comet []) config disk firstResponse (vm []) ∧
      ¬SelfConsistent (comet []) (vm []) firstResponse ∧
      ∀ req ∈ [EngineState.bootstrapping,.normalOp],
        setState (comet []) stateBytes (vm []) req =
            .ok { firstResponse with bytes := stateBytes (vm []).state } ∧
          (parseBlock (comet []) (vm []) (stateBytes (vm []).state)).1 =
            .error (.callee "unexpected EOF") ∧
          ¬SelfConsistent (comet []) (vm []) { firstResponse with bytes := stateBytes (vm []).state } := by
  have hrefused : (parseBlock (comet []) (vm []) (stateBytes (vm []).state)).1 =
      .error (.callee "unexpected EOF") := by decide +kernel
  refine ⟨startedWith [],?_,fun req hreq => ⟨?_,hrefused,?_⟩⟩
  · rintro ⟨parsed,hr,_,hparent,_⟩
    have hparse : (parseBlock (comet []) (vm []) firstResponse.bytes).1 =
        .ok (parseBlockResponse (comet []) firstBlock .accepted) := by decide +kernel
    rw [hparse] at hr
    cases hr
    cases hparent
  · simp only [List.mem_cons,List.not_mem_nil,or_false] at hreq
    rcases hreq with rfl | rfl
    · rfl
    · rfl
  · rintro ⟨parsed,hr,_⟩
    dsimp only at hr
    rw [hrefused] at hr
    cases hr

def resumedDisk : Disk Digest := (disk.replay firstLog).replay secondLog

def secondResponse : InitializeResponse Digest := ⟨some secondID,some firstID,2,[3,1],2000⟩

def resumedVM : VM Digest := ⟨secondState,.new (comet [secondBlock]),resumedDisk,config⟩

theorem startedWith_resumed :
    StartedWith (comet [secondBlock]) config resumedDisk secondResponse resumedVM :=
  ⟨⟨proposal,acceptEnv [] 0,[],rfl,rfl⟩,rfl,rfl⟩

theorem diskValid_resumed : DiskValid (comet [secondBlock]) resumedDisk where
  encodable sb hsb := by
    have hblocks : ∀ sb ∈ resumedDisk.blockStore.blocks,
        sb.block = firstBlock ∨ sb.block = secondBlock := by decide +kernel
    rcases hblocks sb hsb with hb | hb
    · rw [hb]
      exact ⟨[0],by decide +kernel⟩
    · rw [hb]
      exact ⟨[1],by decide +kernel⟩
  base := by decide +kernel
  started _ := by decide +kernel

/-- A node that resumes from the second block announces it consistently. -/
theorem selfConsistent_resumed : SelfConsistent (comet [secondBlock]) resumedVM secondResponse := by
  refine (summaries_selfConsistent_iff (Symbolic.blockRules _) (Symbolic.codecRules _)
    (Symbolic.hashRules _) (Symbolic.roundTripRules (by decide)) (notABlock _) diskValid_resumed
    ?_ (.start startedWith_resumed)).1.mpr ⟨by decide,secondID,rfl,.inr ⟨rfl,rfl⟩⟩
  decide +kernel

end Sample
end Landslide
