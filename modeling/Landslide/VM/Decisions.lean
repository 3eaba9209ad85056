import Landslide.VM.Effects

/-! # What verifying, accepting and rejecting do

The ways the deciding operations end, what they change in the caches, and the rule by
which an invariant of single operations becomes an invariant of runs.
-/
namespace Landslide
open WrappedBlocksStorage
variable {H : Type} [DecidableEq H] {C : CometBFT H}

/-! ## Verifying -/

/-- What `BlockVerify` caches. The status is the one on the wire, whatever it is. -/
structure VerifiedBlock (C : CometBFT H) (vm : VM H) (bytes : Bytes) (id : H) (b : Block H)
    (st : Status) : Prop where
  decoded : decodeBlockWithStatus C bytes = .ok (b,st)
  valid : BlockValid C vm.state b
  hash : C.hash b = some id

def WrappedBlocksStorage.verify (s : WrappedBlocksStorage H) (id : H) (b : Block H) (st : Status) :
    WrappedBlocksStorage H :=
  let (wblk,s) := s.allocate b st
  { s with
    unverifiedBlocks := s.unverifiedBlocks.evict id
    verifiedBlocks := Function.update s.verifiedBlocks id (some wblk) }

theorem blockVerify_cases (vm : VM H) (bytes : Bytes) :
    (blockVerify C vm bytes).2 = vm ∨ ∃ id b st, VerifiedBlock C vm bytes id b st ∧
      (blockVerify C vm bytes).2 = { vm with wrappedBlocks := vm.wrappedBlocks.verify id b st } := by
  unfold blockVerify
  cases hd : decodeBlockWithStatus C bytes with
  | error e => exact .inl (by simp)
  | ok d =>
    obtain ⟨b,st⟩ := d
    cases hv : validateBlock C vm.state b with
    | some e => exact .inl (by simp [hv])
    | none =>
      cases hid : C.hash b with
      | none => exact .inl (by simp [hv,hid,toID])
      | some id =>
        exact .inr ⟨id,b,st,⟨hd,validateBlock_eq_none_iff.mp hv,hid⟩,by simp [hv,hid,toID,verify]⟩

theorem held_verify {s : WrappedBlocksStorage H} {id id' : H} {b : Block H} {st : Status}
    {blk : WrappedBlock H} (h : (s.verify id b st).Held id' blk) :
    s.Held id' blk ∨ (id' = id ∧ blk = ⟨s.nextAddr,b⟩) := by
  rcases h with hv | hd | hu
  · by_cases hid : id' = id
    · subst hid
      simp only [verify,allocate,Function.update_self,Option.some.injEq] at hv
      exact .inr ⟨rfl,hv.symm⟩
    · simp only [verify,allocate,Function.update_of_ne hid] at hv
      exact .inl (.inl hv)
  · exact .inl (.inr (.inl hd))
  · simp only [verify,allocate,SizedLRU.peek_evict] at hu
    split at hu
    · cases hu
    · exact .inl (.inr (.inr hu))

theorem blockVerify_effect (vm : VM H) (bytes : Bytes) :
    Effect vm.wrappedBlocks (blockVerify C vm bytes).2.wrappedBlocks (VerifiedBlock C vm bytes)
      (fun _ => False) (fun _ _ => False) (fun _ => False) := by
  rcases blockVerify_cases (C := C) vm bytes with h | ⟨id,b,st,hb,h⟩
  · rw [h]
    exact .refl
  · rw [h]
    exact ⟨.add id b st hb (fun _ _ => held_verify) rfl rfl,fun _ _ h => .inl h,fun _ h => .inl h⟩

/-! ## Accepting -/

theorem held_accept_self {s : WrappedBlocksStorage H} {id : H} {b : Block H} {blk : WrappedBlock H}
    (h : (s.accept id b).Held id blk) : blk = ⟨s.nextAddr,b⟩ := by
  rcases h with hv | hd | hu
  · simp [accept,allocate] at hv
  · exact SizedLRU.peek_put_self hd
  · simp [accept,allocate,SizedLRU.peek_evict] at hu

theorem held_accept {s : WrappedBlocksStorage H} {id id' : H} {b : Block H} {blk : WrappedBlock H}
    (h : (s.accept id b).Held id' blk) :
    s.Held id' blk ∨ (id' = id ∧ blk = ⟨s.nextAddr,b⟩) := by
  by_cases hid : id' = id
  · subst hid
    exact .inr ⟨rfl,held_accept_self h⟩
  · rcases h with hv | hd | hu
    · simp only [accept,allocate,Function.update_of_ne hid] at hv
      exact .inl (.inl hv)
    · rcases SizedLRU.peek_put hd with ⟨rfl,_⟩ | ⟨_,hd⟩
      · exact absurd rfl hid
      · exact .inl (.inr (.inl hd))
    · simp only [accept,allocate,SizedLRU.peek_evict,if_neg hid] at hu
      exact .inl (.inr (.inr hu))

inductive AcceptsID (C : CometBFT H) (env : AcceptEnv H) (vm : VM H) :
    Option H → Exec (Write H) (VMError H) Unit × VM H → Prop
  /-- The ID is malformed or no cache holds the block. -/
  | refused {request : Option H} {s : WrappedBlocksStorage H} {e : VMError H}
      (hn : ∀ id, request = some id → vm.wrappedBlocks.cached id = none)
      (hs : SameContents vm.wrappedBlocks s) :
      AcceptsID C env vm request (⟨.error e,[]⟩,{ vm with wrappedBlocks := s })
  | failed {s : WrappedBlocksStorage H} {result : Outcome (VMError H) Unit} (id : H)
      (w : WrappedBlock H) (hw : vm.wrappedBlocks.cached id = some w)
      (hs : SameContents vm.wrappedBlocks s) (hr : result ≠ .ok ())
      (ha : ∀ next, (acceptBlock C env vm.disk vm.state w.block).result ≠ .ok next)
      (hp : result.isPanic = (acceptBlock C env vm.disk vm.state w.block).result.isPanic) :
      AcceptsID C env vm (some id) (⟨result,(acceptBlock C env vm.disk vm.state w.block).log⟩,
        { vm with
          wrappedBlocks := s
          disk := vm.disk.replay (acceptBlock C env vm.disk vm.state w.block).log })
  | done {s : WrappedBlocksStorage H} (id : H) (w : WrappedBlock H) (next : State H)
      (hw : vm.wrappedBlocks.cached id = some w) (hs : SameContents vm.wrappedBlocks s)
      (ha : (acceptBlock C env vm.disk vm.state w.block).result = .ok next) :
      AcceptsID C env vm (some id) (⟨.ok (),(acceptBlock C env vm.disk vm.state w.block).log⟩,
        { vm with
          state := next
          wrappedBlocks := s.accept id w.block
          disk := vm.disk.replay (acceptBlock C env vm.disk vm.state w.block).log })

theorem WrappedBlocksStorage.getCachedBlock_cases (s : WrappedBlocksStorage H) (id : H) :
    (∃ s', s.getCachedBlock id = (none,s') ∧ (∀ id', some id = some id' → s.cached id' = none) ∧
      SameContents s s') ∨
    ∃ w s', s.getCachedBlock id = (some w,s') ∧ s.cached id = some w ∧ SameContents s s' := by
  have hfst := s.getCachedBlock_fst id
  have hsame := s.getCachedBlock_sameContents id
  cases hg : s.getCachedBlock id with
  | mk found s' =>
    rw [hg] at hfst hsame
    cases found with
    | none => exact .inl ⟨s',rfl,fun _ h => Option.some.inj h ▸ hfst.symm,hsame⟩
    | some w => exact .inr ⟨w,s',rfl,hfst.symm,hsame⟩

theorem blockAccept_acceptsID (env : AcceptEnv H) (vm : VM H) (request : Option H) :
    AcceptsID C env vm request (blockAccept C env vm request) := by
  unfold blockAccept
  cases request with
  | none =>
    exact .refused (fun _ h => nomatch h) ⟨⟨rfl,fun _ => rfl,fun _ => rfl,rfl,rfl⟩,rfl,fun _ => rfl⟩
  | some id =>
    dsimp only
    rcases vm.wrappedBlocks.getCachedBlock_cases id with ⟨s,hg,hn,hs⟩ | ⟨w,s,hg,hw,hs⟩
    · rw [hg]
      exact .refused hn hs
    · rw [hg]
      dsimp only
      cases ha : (acceptBlock C env vm.disk vm.state w.block).result with
      | error e => exact .failed id w hw hs (by simp) (by simp [ha]) (by simp [ha])
      | panic p => exact .failed id w hw hs (by simp) (by simp [ha]) (by simp [ha])
      | ok next => exact .done id w next hw hs ha

structure AcceptedBlock (C : CometBFT H) (env : AcceptEnv H) (vm : VM H) (request : Option H)
    (id : H) (b : Block H) (st : Status) : Prop where
  requested : request = some id
  cached : ∃ w, vm.wrappedBlocks.cached id = some w ∧ w.block = b
  accepted : ∃ next, (acceptBlock C env vm.disk vm.state b).result = .ok next
  status : st = .accepted

theorem AcceptsID.effect {env : AcceptEnv H} {vm : VM H} {request : Option H}
    {r : Exec (Write H) (VMError H) Unit × VM H} (h : AcceptsID C env vm request r) :
    Effect vm.wrappedBlocks r.2.wrappedBlocks (AcceptedBlock C env vm request) (fun _ => False)
      (fun _ _ => False) (fun _ => False) := by
  cases h with
  | refused hn hs => exact .of_sameContents hs
  | failed id w hw hs hr ha hp => exact .of_sameContents hs
  | done id w next hw hs ha =>
    refine .after_sameContents hs ⟨.add id w.block .accepted ⟨rfl,⟨w,hw,rfl⟩,⟨next,ha⟩,rfl⟩
      (fun _ _ => held_accept) rfl rfl,fun _ _ hb => .inl hb,fun _ hm => .inl ?_⟩
    exact (LRU.peek_evict hm).2

/-! ## Rejecting -/

inductive Rejects (vm : VM H) : Option H → Outcome (VMError H) Unit × VM H → Prop
  | refused {request : Option H} {s : WrappedBlocksStorage H} {e : VMError H}
      (hn : ∀ id, request = some id → vm.wrappedBlocks.cached id = none)
      (hs : SameContents vm.wrappedBlocks s) :
      Rejects vm request (.error e,{ vm with wrappedBlocks := s })
  | done {s : WrappedBlocksStorage H} (id : H) (w : WrappedBlock H)
      (hw : vm.wrappedBlocks.cached id = some w) (hs : SameContents vm.wrappedBlocks s) :
      Rejects vm (some id) (.ok (),{ vm with wrappedBlocks :=
        { s with
          status := Function.update s.status w.addr .rejected
          verifiedBlocks := Function.update s.verifiedBlocks id none
          decidedBlocks := s.decidedBlocks.put id w } })

theorem blockReject_rejects (vm : VM H) (request : Option H) :
    Rejects vm request (blockReject vm request) := by
  unfold blockReject
  cases request with
  | none =>
    exact .refused (fun _ h => nomatch h) ⟨⟨rfl,fun _ => rfl,fun _ => rfl,rfl,rfl⟩,rfl,fun _ => rfl⟩
  | some id =>
    dsimp only
    rcases vm.wrappedBlocks.getCachedBlock_cases id with ⟨s,hg,hn,hs⟩ | ⟨w,s,hg,hw,hs⟩
    · rw [hg]
      exact .refused hn hs
    · rw [hg]
      exact .done id w hw hs

theorem Rejects.effect {vm : VM H} {request : Option H} {r : Outcome (VMError H) Unit × VM H}
    (h : Rejects vm request r) :
    Effect vm.wrappedBlocks r.2.wrappedBlocks (fun _ _ _ => False) (fun id => request = some id)
      (fun _ _ => False) (fun _ => False) := by
  cases h with
  | refused hn hs => exact .of_sameContents hs
  | @done s id w hw hs =>
    have hheld := held_of_cached ((hs.cached id).trans hw)
    refine .after_sameContents hs ⟨.reject id w rfl hheld ?_ rfl rfl,fun _ _ hb => .inl hb,
      fun _ hm => .inl hm⟩
    rintro id' blk (hv | hd | hu)
    · by_cases hid : id' = id
      · subst hid
        simp at hv
      · simp only [Function.update_of_ne hid] at hv
        exact .inl hv
    · rcases SizedLRU.peek_put hd with ⟨rfl,rfl⟩ | ⟨_,hd⟩
      · exact hheld
      · exact .inr (.inl hd)
    · exact .inr (.inr hu)

theorem Rejects.frame {vm : VM H} {request : Option H} {r : Outcome (VMError H) Unit × VM H}
    (h : Rejects vm request r) : ∃ s, r.2 = { vm with wrappedBlocks := s } := by
  cases h with
  | refused hn hs => exact ⟨_,rfl⟩
  | done id w hw hs => exact ⟨_,rfl⟩

/-! ## Flushing -/

theorem flush_effect (s : WrappedBlocksStorage H) :
    Effect s s.flush (fun _ _ _ => False) (fun _ => False) (fun _ _ => False) (fun _ => False) := by
  refine ⟨.keep ?_ rfl rfl,fun _ _ hb => .inl ?_,fun _ hm => .inl ?_⟩
  · rintro id blk (hv | hd | hu)
    · exact .inl hv
    · simp [flush] at hd
    · simp [flush] at hu
  · simp [flush] at hb
  · simp [flush] at hm

/-! ## Starting -/

/-- The ways `Initialize` succeeds: it resumes from the last block of the store, or
creates the first block. -/
inductive Initializes (C : CometBFT H) (config : ExecutorConfig) (disk : Disk H) (s : State H)
    (id : Option H) (log : List (Write H)) : Prop
  | resumed (b : Block H) (hpos : 0 < disk.stateStore.state.lastBlockHeight)
      (hb : disk.blockStore.loadBlock disk.stateStore.state.lastBlockHeight = some b)
      (henc : Encodable C b) (hid : id = C.hash b) (hs : s = disk.stateStore.state) (hlog : log = [])
  | created (b : Block H) (penv : ProposalEnv H) (aenv : AcceptEnv H)
      (hpos : disk.stateStore.state.lastBlockHeight ≤ 0)
      (hb : createProposalBlock C config penv disk.stateStore
        (disk.stateStore.state.lastBlockHeight + 1) disk.stateStore.state ⟨0,0,.zero H,[]⟩
        proposerAddress = .ok b)
      (henc : Encodable C b) (hid : id = C.hash b)
      (ha : acceptBlock C aenv disk disk.stateStore.state b = ⟨.ok s,log⟩)

theorem initializeVM_cases {config : ExecutorConfig} {penv : ProposalEnv H} {aenv : AcceptEnv H}
    {disk : Disk H} {s : State H} {resp : InitializeResponse H} {log : List (Write H)}
    (h : initializeVM C config penv aenv disk = ⟨.ok (s,resp),log⟩) :
    ∃ b bytes, encodeBlockWithStatus C b .accepted = .ok bytes ∧
      resp = ⟨C.hash b,b.header.lastBlockID.hash,uint64 b.header.height,bytes,b.header.time⟩ ∧
      ((0 < disk.stateStore.state.lastBlockHeight ∧
          disk.blockStore.loadBlock disk.stateStore.state.lastBlockHeight = some b ∧
          s = disk.stateStore.state ∧ log = []) ∨
        (disk.stateStore.state.lastBlockHeight ≤ 0 ∧
          createProposalBlock C config penv disk.stateStore
            (disk.stateStore.state.lastBlockHeight + 1) disk.stateStore.state ⟨0,0,.zero H,[]⟩
            proposerAddress = .ok b ∧
          acceptBlock C aenv disk disk.stateStore.state b = ⟨.ok s,log⟩)) := by
  unfold initializeVM at h
  dsimp only at h
  by_cases hpos : disk.stateStore.state.lastBlockHeight > 0
  · rw [if_pos hpos] at h
    cases hb : disk.blockStore.loadBlock disk.stateStore.state.lastBlockHeight with
    | none => simp [hb] at h
    | some b =>
      cases he : encodeBlockWithStatus C b .accepted with
      | error e => simp [hb,he] at h
      | ok bytes =>
        simp only [hb,he,Outcome.ofExcept_ok,Exec.lift_ok_bind,Exec.pure_bind] at h
        cases h
        exact ⟨b,bytes,he,rfl,.inl ⟨hpos,rfl,rfl,rfl⟩⟩
  · rw [if_neg hpos] at h
    cases hb : createProposalBlock C config penv disk.stateStore
        (disk.stateStore.state.lastBlockHeight + 1) disk.stateStore.state ⟨0,0,.zero H,[]⟩
        proposerAddress with
    | error e => simp [hb,Outcome.mapError] at h
    | panic p => simp [hb,Outcome.mapError] at h
    | ok b =>
      cases ha : acceptBlock C aenv disk disk.stateStore.state b with
      | mk result alog =>
        cases result with
        | error e => simp [hb,ha,Outcome.mapError,Exec.mapError] at h
        | panic p => simp [hb,ha,Outcome.mapError,Exec.mapError] at h
        | ok next =>
          cases he : encodeBlockWithStatus C b .accepted with
          | error e => simp [hb,ha,he,Outcome.mapError,Exec.mapError] at h
          | ok bytes =>
            simp [hb,ha,he,Outcome.mapError,Exec.mapError] at h
            obtain ⟨⟨rfl,rfl⟩,rfl⟩ := h
            exact ⟨b,bytes,he,rfl,.inr ⟨not_lt.mp hpos,rfl,ha⟩⟩

theorem initializeVM_ok {config : ExecutorConfig} {penv : ProposalEnv H} {aenv : AcceptEnv H}
    {disk : Disk H} {s : State H} {resp : InitializeResponse H} {log : List (Write H)}
    (h : initializeVM C config penv aenv disk = ⟨.ok (s,resp),log⟩) :
    Initializes C config disk s resp.lastAcceptedID log := by
  obtain ⟨b,bytes,he,rfl,⟨hpos,hb,hs,hlog⟩ | ⟨hpos,hb,ha⟩⟩ := initializeVM_cases h
  · exact .resumed b hpos hb (Encodable.of_encodeBlockWithStatus he) rfl hs hlog
  · exact .created b penv aenv hpos hb (Encodable.of_encodeBlockWithStatus he) rfl ha

end Landslide
