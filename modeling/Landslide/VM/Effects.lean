import Landslide.VM.Machine

/-! # What each operation does to the caches

One lemma per operation says what it can add to the caches and under which condition.
Every invariant of the caches is proved from these lemmas.
-/
namespace Landslide
open WrappedBlocksStorage
variable {H : Type} [DecidableEq H] {C : CometBFT H}

/-- The effect of an operation on the caches: the blocks it may add or reject, the
byte strings and the missing IDs it may record. -/
structure Effect (s s' : WrappedBlocksStorage H) (New : H → Block H → Status → Prop)
    (Rejected : H → Prop) (NewBytes : Bytes → H → Prop) (NewMissing : H → Prop) : Prop where
  change : Change s s' New Rejected
  bytes : ∀ bytes id, s'.bytesToIDCache.peek bytes = some id →
    s.bytesToIDCache.peek bytes = some id ∨ NewBytes bytes id
  missing : ∀ id, s'.missingBlocks.peek id = some () →
    s.missingBlocks.peek id = some () ∨ NewMissing id

namespace Effect
variable {s s' s'' : WrappedBlocksStorage H} {New : H → Block H → Status → Prop}
  {Rejected : H → Prop} {NewBytes : Bytes → H → Prop} {NewMissing : H → Prop}

theorem refl : Effect s s New Rejected NewBytes NewMissing :=
  ⟨.keep (fun _ _ h => h) rfl rfl,fun _ _ h => .inl h,fun _ h => .inl h⟩

theorem of_sameContents (h : SameContents s s') : Effect s s' New Rejected NewBytes NewMissing :=
  ⟨h.change,fun _ _ hb => .inl (h.bytesToIDCache _ ▸ hb),fun _ hm => .inl (h.missingBlocks ▸ hm)⟩

theorem after_sameContents (h : SameContents s s') (he : Effect s' s'' New Rejected NewBytes
    NewMissing) : Effect s s'' New Rejected NewBytes NewMissing :=
  ⟨h.trans_change he.change,fun b id hb => h.bytesToIDCache b ▸ he.bytes b id hb,
    fun id hm => h.missingBlocks ▸ he.missing id hm⟩

end Effect

/-! ## Building -/

structure BuiltBlock (C : CometBFT H) (env : BuildEnv H) (vm : VM H) (id : H) (b : Block H)
    (st : Status) : Prop where
  proposed : proposeBlock C env vm = .ok b
  hash : C.hash b = some id
  encodable : Encodable C b
  status : st = .processing

theorem buildBlock_cases (env : BuildEnv H) (vm : VM H) :
    ((buildBlock C env vm).2 = vm ∧ ∀ resp, (buildBlock C env vm).1 ≠ .ok resp) ∨
    ∃ id b, BuiltBlock C env vm id b .processing ∧
      (∃ resp, (buildBlock C env vm).1 = .ok resp ∧ resp.id = some id) ∧
      (buildBlock C env vm).2 = { vm with wrappedBlocks :=
        let (wblk,s) := vm.wrappedBlocks.allocate b .processing
        { s with
          unverifiedBlocks := s.unverifiedBlocks.put id wblk
          missingBlocks := s.missingBlocks.evict id } } := by
  unfold buildBlock
  cases hp : proposeBlock C env vm with
  | error e => exact .inl ⟨rfl,by simp [Outcome.mapError]⟩
  | panic p => exact .inl ⟨rfl,by simp [Outcome.mapError]⟩
  | ok b =>
    cases he : encodeBlockWithStatus C b .processing with
    | error e => exact .inl ⟨by simp [Outcome.mapError,he],by simp [Outcome.mapError,he]⟩
    | ok bytes =>
      cases hid : C.hash b with
      | none =>
        exact .inl ⟨by simp [Outcome.mapError,he,toID,hid],by simp [Outcome.mapError,he,toID,hid]⟩
      | some id =>
        refine .inr ⟨id,b,⟨hp,hid,Encodable.of_encodeBlockWithStatus he,rfl⟩,?_,?_⟩
        · simp [Outcome.mapError,he,toID,hid]
        · simp [Outcome.mapError,he,toID,hid]

theorem buildBlock_effect (env : BuildEnv H) (vm : VM H) :
    Effect vm.wrappedBlocks (buildBlock C env vm).2.wrappedBlocks (BuiltBlock C env vm)
      (fun _ => False) (fun _ _ => False) (fun _ => False) := by
  rcases buildBlock_cases (C := C) env vm with ⟨h,_⟩ | ⟨id,b,hb,_,h⟩
  · rw [h]
    exact .refl
  · rw [h]
    refine ⟨.add id b .processing hb ?_ rfl rfl,fun _ _ h => .inl h,fun _ h => .inl ?_⟩
    · exact fun id' blk h => held_put_unverified (s := (vm.wrappedBlocks.allocate b .processing).2) h
    · exact (LRU.peek_evict h).2

/-! ## Parsing -/

structure ParsedBlock (C : CometBFT H) (vm : VM H) (bytes : Bytes) (id : H) (b : Block H)
    (st : Status) : Prop where
  notCached : vm.wrappedBlocks.bytesToIDCache.peek bytes = none
  notHeld : vm.wrappedBlocks.cached id = none
  decoded : decodeBlockWithStatus C bytes = .ok (b,st)
  hash : C.hash b = some id
  named : st = .accepted ∨ st = .rejected ∨ st = .processing

inductive ParsesID (C : CometBFT H) (s : WrappedBlocksStorage H) (id : H)
    (decoded : Option (Block H × Status)) :
    Outcome (VMError H) (ParseBlockResponse H) × WrappedBlocksStorage H → Prop
  | held {s₁ : WrappedBlocksStorage H} (w : WrappedBlock H) (hw : s.cached id = some w)
      (hs : SameContents s s₁) :
      ParsesID C s id decoded (.ok (parseBlockResponse C w.block (s.status w.addr)),s₁)
  /-- Nothing was decoded, or the status on the wire has no cache. -/
  | unexpected {s₁ : WrappedBlocksStorage H} {st : Status} (hn : s.cached id = none)
      (hs : SameContents s s₁) (hd : ∀ b st', decoded = some (b,st') →
        st' ≠ .accepted ∧ st' ≠ .rejected ∧ st' ≠ .processing) :
      ParsesID C s id decoded (.error (.unexpectedStatus id st),s₁)
  | stored {s₁ s₂ : WrappedBlocksStorage H} (b : Block H) (st : Status) (hn : s.cached id = none)
      (hd : decoded = some (b,st)) (hst : st = .accepted ∨ st = .rejected ∨ st = .processing)
      (hs : SameContents s s₁) (hp : Stored (s₁.allocate b st).2 s₂ id (s₁.allocate b st).1) :
      ParsesID C s id decoded (.ok (parseBlockResponse C b st),
        { s₂ with missingBlocks := s₂.missingBlocks.evict id })

theorem parseBlockID_parsesID (s : WrappedBlocksStorage H) (id : H)
    (decoded : Option (Block H × Status)) :
    ParsesID C s id decoded (parseBlockID C s id decoded) := by
  have hfst := s.getCachedBlock_fst id
  have hsame := s.getCachedBlock_sameContents id
  unfold parseBlockID
  cases hg : s.getCachedBlock id with
  | mk found s₁ =>
    rw [hg] at hfst hsame
    dsimp only at hfst hsame
    cases found with
    | some w =>
      dsimp only
      rw [hsame.status]
      exact .held w hfst.symm hsame
    | none =>
      cases decoded with
      | none => exact .unexpected hfst.symm hsame (fun _ _ h => nomatch h)
      | some d =>
        obtain ⟨b,st⟩ := d
        dsimp only
        cases hput : (s₁.allocate b st).2.putByStatus id (s₁.allocate b st).1 st with
        | none =>
          have hst := putByStatus_eq_none_iff.mp hput
          refine .unexpected hfst.symm hsame ?_
          rintro b' st' ⟨⟩
          exact hst
        | some s₂ =>
          have hst : st = .accepted ∨ st = .rejected ∨ st = .processing := by
            by_contra hn
            simp only [not_or] at hn
            rw [putByStatus_eq_none_iff.mpr hn] at hput
            cases hput
          exact .stored b st hfst.symm rfl hst hsame (putByStatus_stored hput)

inductive Parses (C : CometBFT H) (vm : VM H) (bytes : Bytes) :
    Outcome (VMError H) (ParseBlockResponse H) × VM H → Prop
  /-- The cache of bytes knows the ID, so nothing is decoded. -/
  | known {s : WrappedBlocksStorage H}
      {r : Outcome (VMError H) (ParseBlockResponse H) × WrappedBlocksStorage H} (id : H)
      (hid : vm.wrappedBlocks.bytesToIDCache.peek bytes = some id)
      (hs : SameContents vm.wrappedBlocks s) (hr : ParsesID C s id none r) :
      Parses C vm bytes (r.1,{ vm with wrappedBlocks := r.2 })
  /-- The bytes decode to no block with an ID. -/
  | refused {s : WrappedBlocksStorage H} {e : VMError H}
      (hid : vm.wrappedBlocks.bytesToIDCache.peek bytes = none)
      (hs : SameContents vm.wrappedBlocks s)
      (hd : ∀ b st, decodeBlockWithStatus C bytes = .ok (b,st) → C.hash b = none) :
      Parses C vm bytes (.error e,{ vm with wrappedBlocks := s })
  | decoded {s : WrappedBlocksStorage H}
      {r : Outcome (VMError H) (ParseBlockResponse H) × WrappedBlocksStorage H} (id : H)
      (b : Block H) (st : Status) (hid : vm.wrappedBlocks.bytesToIDCache.peek bytes = none)
      (hs : SameContents vm.wrappedBlocks s)
      (hd : decodeBlockWithStatus C bytes = .ok (b,st)) (hb : C.hash b = some id)
      (hr : ParsesID C { s with bytesToIDCache := s.bytesToIDCache.put bytes id } id
        (some (b,st)) r) :
      Parses C vm bytes (r.1,{ vm with wrappedBlocks := r.2 })

theorem parseBlock_parses (vm : VM H) (bytes : Bytes) :
    Parses C vm bytes (parseBlock C vm bytes) := by
  have hfst := vm.wrappedBlocks.bytesToIDCache.get_fst bytes
  have hsame := sameContents_getBytes vm.wrappedBlocks bytes
  unfold parseBlock
  cases hg : vm.wrappedBlocks.bytesToIDCache.get bytes with
  | mk cachedID cache =>
    rw [hg] at hfst hsame
    dsimp only at hfst hsame ⊢
    cases cachedID with
    | some id => exact .known id hfst.symm hsame (parseBlockID_parsesID _ id none)
    | none =>
      cases hd : decodeBlockWithStatus C bytes with
      | error e => exact .refused hfst.symm hsame (fun _ _ h => by rw [hd] at h; cases h)
      | ok d =>
        obtain ⟨b,st⟩ := d
        dsimp only
        cases hb : C.hash b with
        | none =>
          refine .refused hfst.symm hsame ?_
          intro b' st' h
          rw [hd] at h
          cases h
          exact hb
        | some id =>
          exact .decoded id b st hfst.symm hsame hd hb (parseBlockID_parsesID _ id _)

theorem ParsesID.effect {s : WrappedBlocksStorage H} {id : H} {decoded : Option (Block H × Status)}
    {r : Outcome (VMError H) (ParseBlockResponse H) × WrappedBlocksStorage H}
    (h : ParsesID C s id decoded r) :
    Effect s r.2 (fun id' b st => id' = id ∧ s.cached id = none ∧ decoded = some (b,st) ∧
        (st = .accepted ∨ st = .rejected ∨ st = .processing))
      (fun _ => False) (fun _ _ => False) (fun _ => False) := by
  cases h with
  | held w hw hs => exact .of_sameContents hs
  | unexpected hn hs hd => exact .of_sameContents hs
  | stored b st hn hd hst hs hp =>
    refine .after_sameContents hs ⟨?_,?_,?_⟩
    · exact .add id b st ⟨rfl,hn,hd,hst⟩ hp.held hp.status hp.nextAddr
    · exact fun _ _ hb => .inl (hp.bytesToIDCache ▸ hb)
    · exact fun _ hm => .inl (hp.missingBlocks ▸ (LRU.peek_evict hm).2)

/-- The bytes that `ParseBlock` remembers belong to the ID of the block they decode to. -/
def ParsedBytes (C : CometBFT H) (bytes bytes' : Bytes) (id : H) : Prop :=
  bytes' = bytes ∧ ∃ b st, decodeBlockWithStatus C bytes = .ok (b,st) ∧ C.hash b = some id

theorem Parses.effect {vm : VM H} {bytes : Bytes}
    {r : Outcome (VMError H) (ParseBlockResponse H) × VM H} (h : Parses C vm bytes r) :
    Effect vm.wrappedBlocks r.2.wrappedBlocks (ParsedBlock C vm bytes) (fun _ => False)
      (ParsedBytes C bytes) (fun _ => False) := by
  cases h with
  | known id hid hs hr =>
    have he := hr.effect
    refine .after_sameContents hs ⟨he.change.mono ?_,?_,he.missing⟩
    · rintro id' b st ⟨_,_,hd,_⟩
      cases hd
    · exact fun b id hb => .inl ((he.bytes b id hb).resolve_right not_false)
  | refused hid hs hd => exact .of_sameContents hs
  | decoded id b st hid hs hd hb hr =>
    have he := hr.effect
    refine .after_sameContents hs
      ⟨(sameBlocks_bytes _ _).trans_change (he.change.mono ?_),?_,he.missing⟩
    · rintro id' b' st' ⟨rfl,hn,hbst,hst⟩
      cases hbst
      exact ⟨hid,(hs.toSameBlocks.cached id').symm.trans hn,hd,hb,hst⟩
    · intro bytes' id' hb'
      rcases he.bytes bytes' id' hb' with hb' | hb'
      · rcases SizedLRU.peek_put hb' with ⟨rfl,rfl⟩ | ⟨_,hb'⟩
        · exact .inr ⟨rfl,b,st,hd,hb⟩
        · exact .inl hb'
      · exact hb'.elim

theorem Parses.frame {vm : VM H} {bytes : Bytes}
    {r : Outcome (VMError H) (ParseBlockResponse H) × VM H} (h : Parses C vm bytes r) :
    ∃ s, r.2 = { vm with wrappedBlocks := s } := by
  cases h with
  | known id hid hs hr => exact ⟨_,rfl⟩
  | refused hid hs hd => exact ⟨_,rfl⟩
  | decoded id b st hid hs hd hb hr => exact ⟨_,rfl⟩

/-! ## Looking up -/

inductive Answers (C : CometBFT H) (s : WrappedBlocksStorage H) (id : H) (w : WrappedBlock H) :
    Outcome (VMError H) (GetBlockResponse H) × WrappedBlocksStorage H → Prop
  | unexpected {e : VMError H} (hst : s.status w.addr ≠ .accepted ∧ s.status w.addr ≠ .rejected ∧
      s.status w.addr ≠ .processing) : Answers C s id w (.error e,s)
  | unencodable {s₁ : WrappedBlocksStorage H} {e : VMError H} (hs : Stored s s₁ id w)
      (he : ∀ bytes, encodeBlockWithStatus C w.block (s.status w.addr) ≠ .ok bytes) :
      Answers C s id w (.error e,s₁)
  | found {s₁ : WrappedBlocksStorage H} {bytes : Bytes} (hs : Stored s s₁ id w)
      (he : encodeBlockWithStatus C w.block (s.status w.addr) = .ok bytes) :
      Answers C s id w (.ok (.found w.block.header.lastBlockID.hash bytes (s.status w.addr)
        (uint64 w.block.header.height) w.block.header.time),s₁)

theorem getWrappedBlock_answers (s : WrappedBlocksStorage H) (id : H) (w : WrappedBlock H) :
    Answers C s id w (getWrappedBlock C s id w) := by
  unfold getWrappedBlock
  dsimp only
  cases hput : s.putByStatus id w (s.status w.addr) with
  | none => exact .unexpected (putByStatus_eq_none_iff.mp hput)
  | some s₁ =>
    have hs := putByStatus_stored hput
    dsimp only
    cases he : encodeBlockWithStatus C w.block (s.status w.addr) with
    | error e => exact .unencodable hs (fun bytes h => by rw [he] at h; cases h)
    | ok bytes => exact .found hs he

theorem Answers.stored {s : WrappedBlocksStorage H} {id : H} {w : WrappedBlock H}
    {r : Outcome (VMError H) (GetBlockResponse H) × WrappedBlocksStorage H}
    (h : Answers C s id w r) : r.2 = s ∨ Stored s r.2 id w := by
  cases h with
  | unexpected hst => exact .inl rfl
  | unencodable hs he => exact .inr hs
  | found hs he => exact .inr hs

inductive Gets (C : CometBFT H) (vm : VM H) :
    Option H → Outcome (VMError H) (GetBlockResponse H) × VM H → Prop
  | invalid : Gets C vm none (.error .invalidHashLen,vm)
  | held {s : WrappedBlocksStorage H}
      {r : Outcome (VMError H) (GetBlockResponse H) × WrappedBlocksStorage H} (id : H)
      (w : WrappedBlock H) (hw : vm.wrappedBlocks.cached id = some w)
      (hs : SameContents vm.wrappedBlocks s) (hr : Answers C s id w r) :
      Gets C vm (some id) (r.1,{ vm with wrappedBlocks := r.2 })
  | missing {s s' : WrappedBlocksStorage H} (id : H) (hn : vm.wrappedBlocks.cached id = none)
      (hs : SameContents vm.wrappedBlocks s) (hm : vm.wrappedBlocks.missingBlocks.peek id = some () ∨
        vm.disk.blockStore.loadBlockByHash C id = none)
      (hs' : ∃ missing : LRU H Unit, s' = { s with missingBlocks := missing } ∧
        ∀ id', missing.peek id' = some () → s.missingBlocks.peek id' = some () ∨
          (id' = id ∧ vm.disk.blockStore.loadBlockByHash C id = none)) :
      Gets C vm (some id) (.ok .notFound,{ vm with wrappedBlocks := s' })
  | loaded {s : WrappedBlocksStorage H} {missing : LRU H Unit}
      {r : Outcome (VMError H) (GetBlockResponse H) × WrappedBlocksStorage H} (id : H) (b : Block H)
      (hn : vm.wrappedBlocks.cached id = none) (hs : SameContents vm.wrappedBlocks s)
      (hm : ∀ id', missing.peek id' = some () → s.missingBlocks.peek id' = some ())
      (hb : vm.disk.blockStore.loadBlockByHash C id = some b)
      (hr : Answers C ({ s with missingBlocks := missing }.allocate b .accepted).2 id
        ({ s with missingBlocks := missing }.allocate b .accepted).1 r) :
      Gets C vm (some id) (r.1,{ vm with wrappedBlocks := r.2 })

theorem getBlock_gets (vm : VM H) (id : Option H) : Gets C vm id (getBlock C vm id) := by
  unfold getBlock
  cases id with
  | none => exact .invalid
  | some id =>
    have hfst := vm.wrappedBlocks.getCachedBlock_fst id
    have hsame := vm.wrappedBlocks.getCachedBlock_sameContents id
    dsimp only
    cases hg : vm.wrappedBlocks.getCachedBlock id with
    | mk found s =>
      rw [hg] at hfst hsame
      dsimp only at hfst hsame ⊢
      cases found with
      | some w => exact .held id w hfst.symm hsame (getWrappedBlock_answers s id w)
      | none =>
        have hget : ∀ id', (s.missingBlocks.get id).2.peek id' = some () →
            s.missingBlocks.peek id' = some () := fun _ => LRU.peek_get
        have hhit : (s.missingBlocks.get id).1 = some () →
            s.missingBlocks.peek id = some () := LRU.get_fst_some
        dsimp only
        cases hm : s.missingBlocks.get id with
        | mk hit missing =>
          rw [hm] at hget hhit
          dsimp only at hget hhit ⊢
          cases hit with
          | some u =>
            have hpeek := hhit rfl
            rw [hsame.missingBlocks] at hpeek
            exact .missing id hfst.symm hsame (.inl hpeek)
              ⟨missing,rfl,fun id' h => .inl (hget id' h)⟩
          | none =>
            cases hb : vm.disk.blockStore.loadBlockByHash C id with
            | none =>
              refine .missing id hfst.symm hsame (.inr hb) ⟨_,rfl,?_⟩
              intro id' h
              rcases LRU.peek_put h with rfl | h
              · exact .inr ⟨rfl,hb⟩
              · exact .inl (hget id' h)
            | some b => exact .loaded id b hfst.symm hsame hget hb (getWrappedBlock_answers _ id _)

structure LoadedBlock (C : CometBFT H) (vm : VM H) (request : Option H) (id : H) (b : Block H)
    (st : Status) : Prop where
  requested : request = some id
  notHeld : vm.wrappedBlocks.cached id = none
  loaded : vm.disk.blockStore.loadBlockByHash C id = some b
  status : st = .accepted

/-- What `GetBlock` records as missing: a block that neither a cache nor the store has. -/
structure MissingBlock (C : CometBFT H) (vm : VM H) (request : Option H) (id : H) : Prop where
  requested : request = some id
  notHeld : vm.wrappedBlocks.cached id = none
  notLoaded : vm.disk.blockStore.loadBlockByHash C id = none

theorem Gets.effect {vm : VM H} {request : Option H}
    {r : Outcome (VMError H) (GetBlockResponse H) × VM H} (h : Gets C vm request r) :
    Effect vm.wrappedBlocks r.2.wrappedBlocks (LoadedBlock C vm request) (fun _ => False)
      (fun _ _ => False) (MissingBlock C vm request) := by
  cases h with
  | invalid => exact .refl
  | held id w hw hs hr =>
    refine .after_sameContents hs ?_
    rcases hr.stored with he | hst
    · rw [he]
      exact .refl
    · have hheld := held_of_cached ((hs.cached id).trans hw)
      exact ⟨hst.change_held hheld,fun _ _ hb => .inl (hst.bytesToIDCache ▸ hb),
        fun _ hm => .inl (hst.missingBlocks ▸ hm)⟩
  | missing id hn hs hm hs' =>
    obtain ⟨missing,rfl,hmissing⟩ := hs'
    refine .after_sameContents hs ⟨(sameBlocks_missing _ missing).change,fun _ _ hb => .inl hb,?_⟩
    intro id' hid'
    rcases hmissing id' hid' with h | ⟨rfl,hb⟩
    · exact .inl h
    · exact .inr ⟨rfl,hn,hb⟩
  | @loaded s missing r id b hn hs hm hb hr =>
    refine .after_sameContents hs ?_
    have hnew : LoadedBlock C vm (some id) id b .accepted := ⟨rfl,hn,hb,rfl⟩
    rcases hr.stored with he | hst
    · -- an accepted block always has a cache, so this branch adds nothing
      refine ⟨.add id b .accepted hnew ?_ (by rw [he]; rfl) (by rw [he]; rfl),?_,?_⟩
      · intro id' blk hblk
        rw [he] at hblk
        exact .inl hblk
      · intro _ _ hbytes
        rw [he] at hbytes
        exact .inl hbytes
      · intro id' hid'
        rw [he] at hid'
        exact .inl (hm id' hid')
    · refine ⟨(sameBlocks_missing s missing).trans_change (hst.change_allocate hnew),
        fun _ _ hbytes => .inl (hst.bytesToIDCache ▸ hbytes),?_⟩
      intro id' hid'
      rw [hst.missingBlocks] at hid'
      exact .inl (hm id' hid')

theorem Gets.frame {vm : VM H} {request : Option H}
    {r : Outcome (VMError H) (GetBlockResponse H) × VM H} (h : Gets C vm request r) :
    ∃ s, r.2 = { vm with wrappedBlocks := s } := by
  cases h with
  | invalid => exact ⟨_,rfl⟩
  | held id w hw hs hr => exact ⟨_,rfl⟩
  | missing id hn hs hm hs' => exact ⟨_,rfl⟩
  | loaded id b hn hs hm hb hr => exact ⟨_,rfl⟩

end Landslide
