import Landslide.VM.Decisions

/-! # What a call can do

The effects of the single operations put together: what any call may add to the caches,
that only `BlockAccept` touches the state and the disk, and the rule that lifts what
single calls keep to batches.
-/
namespace Landslide
open WrappedBlocksStorage
variable {H : Type} [DecidableEq H] {C : CometBFT H}

/-! ## Effects -/

def Op.IsCall : Op H → Prop
  | .batchedParseBlock _ => False
  | _ => True

def Op.Adds (C : CometBFT H) (vm : VM H) : Op H → H → Block H → Status → Prop
  | .buildBlock env => BuiltBlock C env vm
  | .parseBlock bytes => ParsedBlock C vm bytes
  | .getBlock request => LoadedBlock C vm request
  | .blockVerify bytes => VerifiedBlock C vm bytes
  | .blockAccept env request => AcceptedBlock C env vm request
  | _ => fun _ _ _ => False

def Op.Rejects : Op H → H → Prop
  | .blockReject request => fun id => request = some id
  | _ => fun _ => False

def Op.Remembers (C : CometBFT H) : Op H → Bytes → H → Prop
  | .parseBlock bytes => ParsedBytes C bytes
  | _ => fun _ _ => False

def Op.Misses (C : CometBFT H) (vm : VM H) : Op H → H → Prop
  | .getBlock request => MissingBlock C vm request
  | _ => fun _ => False

theorem step_effect (vm : VM H) {op : Op H} (hop : op.IsCall) :
    Effect vm.wrappedBlocks (vm.step C op).wrappedBlocks (op.Adds C vm) op.Rejects
      (op.Remembers C) (op.Misses C vm) := by
  cases op with
  | buildBlock env => exact buildBlock_effect env vm
  | parseBlock bytes => exact (parseBlock_parses vm bytes).effect
  | batchedParseBlock request => exact hop.elim
  | getBlock id => exact (getBlock_gets vm id).effect
  | blockVerify bytes => exact blockVerify_effect vm bytes
  | blockAccept env id => exact (blockAccept_acceptsID env vm id).effect
  | blockReject id => exact (blockReject_rejects vm id).effect
  | flush => exact flush_effect vm.wrappedBlocks

/-- What a call does to the state and the disk. -/
inductive Advance (C : CometBFT H) (vm : VM H) (op : Op H) (vm' : VM H) : Prop
  | quiet (hstate : vm'.state = vm.state) (hdisk : vm'.disk = vm.disk)
      (hn : ∀ env id, op = .blockAccept env (some id) → vm.wrappedBlocks.cached id = none)
  | failed (env : AcceptEnv H) (id : H) (w : WrappedBlock H)
      (hop : op = .blockAccept env (some id)) (hw : vm.wrappedBlocks.cached id = some w)
      (ha : ∀ next, (acceptBlock C env vm.disk vm.state w.block).result ≠ .ok next)
      (hstate : vm'.state = vm.state)
      (hdisk : vm'.disk = vm.disk.replay (acceptBlock C env vm.disk vm.state w.block).log)
  | accepted (env : AcceptEnv H) (id : H) (w : WrappedBlock H)
      (hop : op = .blockAccept env (some id)) (hw : vm.wrappedBlocks.cached id = some w)
      (ha : (acceptBlock C env vm.disk vm.state w.block).result = .ok vm'.state)
      (hdisk : vm'.disk = vm.disk.replay (acceptBlock C env vm.disk vm.state w.block).log)

theorem Advance.of_frame {vm vm' : VM H} {op : Op H} {s : WrappedBlocksStorage H}
    (h : vm' = { vm with wrappedBlocks := s }) (hop : ∀ env request, op ≠ .blockAccept env request) :
    Advance C vm op vm' :=
  .quiet (by rw [h]) (by rw [h]) (fun env id he => absurd he (hop env (some id)))

theorem step_advance (vm : VM H) {op : Op H} (hop : op.IsCall) :
    Advance C vm op (vm.step C op) := by
  cases op with
  | buildBlock env =>
    rcases buildBlock_cases (C := C) env vm with ⟨h,_⟩ | ⟨id,b,_,_,h⟩
    · exact .of_frame h (fun _ _ h => nomatch h)
    · exact .of_frame h (fun _ _ h => nomatch h)
  | parseBlock bytes =>
    obtain ⟨s,hs⟩ := (parseBlock_parses (C := C) vm bytes).frame
    exact .of_frame hs (fun _ _ h => nomatch h)
  | batchedParseBlock request => exact hop.elim
  | getBlock id =>
    obtain ⟨s,hs⟩ := (getBlock_gets (C := C) vm id).frame
    exact .of_frame hs (fun _ _ h => nomatch h)
  | blockVerify bytes =>
    rcases blockVerify_cases (C := C) vm bytes with h | ⟨id,b,st,_,h⟩
    · exact .of_frame h (fun _ _ h => nomatch h)
    · exact .of_frame h (fun _ _ h => nomatch h)
  | blockAccept env request =>
    have hacc := blockAccept_acceptsID (C := C) env vm request
    unfold VM.step
    dsimp only
    generalize blockAccept C env vm request = r at hacc
    cases hacc with
    | refused hn hs =>
      refine .quiet rfl rfl ?_
      rintro env' id ⟨⟩
      exact hn id rfl
    | failed id w hw hs hr ha hp => exact .failed env id w rfl hw ha rfl rfl
    | done id w next hw hs ha => exact .accepted env id w rfl hw ha rfl
  | blockReject id =>
    obtain ⟨s,hs⟩ := (blockReject_rejects vm id).frame
    exact .of_frame hs (fun _ _ h => nomatch h)
  | flush => exact .of_frame rfl (fun _ _ h => nomatch h)

/-! ## Batches -/

/-- A guard on parsed bytes, for every request that a batch gets to. -/
def GuardedBatch (C : CometBFT H) (guard : VM H → Bytes → Prop) : VM H → List Bytes → Prop
  | _,[] => True
  | vm,bytes :: rest => guard vm bytes ∧
    (∀ resp, (parseBlock C vm bytes).1 = .ok resp →
      GuardedBatch C guard (parseBlock C vm bytes).2 rest)

/-- A guard on calls, extended to batches. -/
def Guarded (C : CometBFT H) (guard : VM H → Op H → Prop) (vm : VM H) : Op H → Prop
  | .batchedParseBlock request =>
    GuardedBatch C (fun vm bytes => guard vm (.parseBlock bytes)) vm request
  | op => guard vm op

theorem GuardedBatch.keeps {P : VM H → Prop} {guard : VM H → Bytes → Prop}
    (hparse : ∀ vm bytes, P vm → guard vm bytes → P (parseBlock C vm bytes).2) {vm : VM H}
    {request : List Bytes} (hvm : P vm) (hg : GuardedBatch C guard vm request) :
    P (batchedParseBlock C vm request).2 := by
  induction request generalizing vm with
  | nil => exact hvm
  | cons bytes rest ih =>
    obtain ⟨hb,hrest⟩ := hg
    have hstep := hparse vm bytes hvm hb
    unfold batchedParseBlock
    cases hp : parseBlock C vm bytes with
    | mk result vm' =>
      rw [hp] at hstep hrest
      cases result with
      | error e => exact hstep
      | panic p => exact hstep
      | ok resp => exact ih hstep (hrest resp rfl)

theorem Guarded.keeps {P : VM H → Prop} {guard : VM H → Op H → Prop}
    (hcall : ∀ vm op, op.IsCall → P vm → guard vm op → P (vm.step C op)) {vm : VM H} {op : Op H}
    (hvm : P vm) (hg : Guarded C guard vm op) : P (vm.step C op) := by
  cases op with
  | batchedParseBlock request =>
    exact GuardedBatch.keeps (P := P) (fun vm bytes => hcall vm (.parseBlock bytes) trivial) hvm hg
  | buildBlock env => exact hcall _ _ trivial hvm hg
  | parseBlock bytes => exact hcall _ _ trivial hvm hg
  | getBlock id => exact hcall _ _ trivial hvm hg
  | blockVerify bytes => exact hcall _ _ trivial hvm hg
  | blockAccept env id => exact hcall _ _ trivial hvm hg
  | blockReject id => exact hcall _ _ trivial hvm hg
  | flush => exact hcall _ _ trivial hvm hg

theorem Guarded.invariant {start P : VM H → Prop} {guard : VM H → Op H → Prop}
    (hstart : ∀ vm, start vm → P vm)
    (hcall : ∀ vm op, op.IsCall → P vm → guard vm op → P (vm.step C op)) {vm : VM H}
    (h : Reaches start (Guarded C guard) (VM.step C) vm) : P vm := by
  refine h.invariant hstart ?_
  intro vm op hvm hg
  exact hg.keeps hcall hvm

theorem Guarded.of_call {guard : VM H → Op H → Prop} (hparse : ∀ vm bytes, guard vm (.parseBlock bytes))
    {vm : VM H} {op : Op H} (h : guard vm op) : Guarded C guard vm op := by
  have hbatch : ∀ (request : List Bytes) (vm : VM H),
      GuardedBatch C (fun vm bytes => guard vm (.parseBlock bytes)) vm request := by
    intro request
    induction request with
    | nil => exact fun _ => trivial
    | cons bytes rest ih => exact fun vm => ⟨hparse vm bytes,fun _ _ => ih _⟩
  cases op with
  | batchedParseBlock request => exact hbatch request vm
  | _ => exact h

/-! ## Runs with their history -/

def acceptedBy (C : CometBFT H) (vm : VM H) : Op H → List H
  | .blockAccept env (some id) =>
    match (blockAccept C env vm (some id)).1.result with
    | .ok () => [id]
    | _ => []
  | _ => []

/-- A VM with the IDs it has accepted so far, newest first. -/
structure History (H : Type) where
  vm : VM H
  accepted : List H

def History.step (C : CometBFT H) (h : History H) (op : Op H) : History H :=
  ⟨h.vm.step C op,acceptedBy C h.vm op ++ h.accepted⟩

/-- The history of a VM that `Initialize` has just returned from. -/
def History.Started (C : CometBFT H) (config : ExecutorConfig) (disk : Disk H) (h : History H) :
    Prop :=
  ∃ resp, StartedWith C config disk resp h.vm ∧ h.accepted = resp.lastAcceptedID.toList

theorem mem_acceptedBy {vm : VM H} {op : Op H} {id : H} (h : id ∈ acceptedBy C vm op) :
    ∃ env w s, op = .blockAccept env (some id) ∧ vm.wrappedBlocks.cached id = some w ∧
      SameContents vm.wrappedBlocks s ∧
      (acceptBlock C env vm.disk vm.state w.block).result = .ok (vm.step C op).state ∧
      (vm.step C op).wrappedBlocks = s.accept id w.block ∧
      (vm.step C op).disk =
        vm.disk.replay (acceptBlock C env vm.disk vm.state w.block).log := by
  cases op with
  | blockAccept env request =>
    cases request with
    | none => simp [acceptedBy] at h
    | some id' =>
      have hacc := blockAccept_acceptsID (C := C) env vm (some id')
      simp only [acceptedBy] at h
      unfold VM.step
      dsimp only
      generalize blockAccept C env vm (some id') = r at hacc h
      cases hacc with
      | refused hn hs => simp at h
      | failed _ w hw hs hr ha hp =>
        dsimp only at h
        split at h
        · exact absurd rfl hr
        · simp at h
      | done _ w next hw hs ha =>
        obtain rfl : id = id' := by simpa using h
        exact ⟨env,w,_,rfl,hw,hs,ha,rfl,rfl⟩
  | _ => simp [acceptedBy] at h

/-- The rule for runs with their history: `Q` is kept by every guarded call, and `R`
holds of every accepted block from its acceptance on. -/
theorem History.invariant {config : ExecutorConfig} {disk : Disk H} {Q : VM H → Prop}
    {R : VM H → H → Prop} {G : List H → VM H → Op H → Prop}
    (hstart : ∀ resp vm, StartedWith C config disk resp vm →
      Q vm ∧ ∀ id, resp.lastAcceptedID = some id → R vm id)
    (hcall : ∀ accepted vm op, op.IsCall → Q vm → (∀ id ∈ accepted, R vm id) →
      G accepted vm op → Q (vm.step C op) ∧ ∀ id ∈ accepted, R (vm.step C op) id)
    (hnew : ∀ vm op id, Q vm → id ∈ acceptedBy C vm op → R (vm.step C op) id) {h : History H}
    (hrun : Reaches (History.Started C config disk)
      (fun h op => Guarded C (G h.accepted) h.vm op) (History.step C) h) :
    Q h.vm ∧ ∀ id ∈ h.accepted, R h.vm id := by
  refine Reaches.invariant (P := fun h => Q h.vm ∧ ∀ id ∈ h.accepted, R h.vm id) ?_ ?_ hrun
  · rintro h ⟨resp,hs,hacc⟩
    obtain ⟨hq,hr⟩ := hstart resp h.vm hs
    refine ⟨hq,fun id hid => hr id ?_⟩
    rwa [hacc,Option.mem_toList] at hid
  · intro h op hinv hg
    have hkept : Q (h.vm.step C op) ∧ ∀ id ∈ h.accepted, R (h.vm.step C op) id :=
      hg.keeps (P := fun vm => Q vm ∧ ∀ id ∈ h.accepted, R vm id)
        (fun vm op hop hvm hg => hcall h.accepted vm op hop hvm.1 hvm.2 hg) hinv
    refine ⟨hkept.1,fun id hid => ?_⟩
    rcases List.mem_append.mp hid with hid | hid
    · exact hnew h.vm op id hinv.1 hid
    · exact hkept.2 id hid

theorem History.vm_invariant {config : ExecutorConfig} {disk : Disk H} {Q : VM H → Prop}
    {G : VM H → Op H → Prop} (hstart : ∀ resp vm, StartedWith C config disk resp vm → Q vm)
    (hcall : ∀ vm op, op.IsCall → Q vm → G vm op → Q (vm.step C op)) {h : History H}
    (hrun : Reaches (History.Started C config disk) (fun h op => Guarded C G h.vm op)
      (History.step C) h) : Q h.vm :=
  (History.invariant (G := fun _ => G) (R := fun _ _ => True)
    (fun resp vm hs => ⟨hstart resp vm hs,fun _ _ => trivial⟩)
    (fun _ vm op hop hvm _ hg => ⟨hcall vm op hop hvm hg,fun _ _ => trivial⟩)
    (fun _ _ _ _ _ => trivial) hrun).1

end Landslide
