import Landslide.Chain.Store

/-! # Pages of search results

`Validators`, `TxSearch` and `BlockSearch` return one page of a list. The pages of a list are
its consecutive pieces of one length; the last one may be shorter, and an empty list has one
empty page. Go's `int` has 64 bits here; no value computed from a page that is accepted leaves
the range between zero and the length of the list.
-/
namespace Landslide
variable {α β γ ε : Type}

/-! ## Pieces of a list -/

def piece (l : List α) (size i : ℕ) : List α := (l.drop (i * size)).take size

theorem flatMap_piece (l : List α) (size n : ℕ) :
    (List.range n).flatMap (piece l size) = l.take (n * size) := by
  induction n with
  | zero => simp
  | succ n ih =>
    rw [List.range_succ,List.flatMap_append,ih,List.flatMap_singleton,piece,Nat.succ_mul,
      List.take_add]

theorem flatMap_piece_eq_self {l : List α} {size n : ℕ} (h : l.length ≤ n * size) :
    (List.range n).flatMap (piece l size) = l := by
  rw [flatMap_piece,List.take_of_length_le h]

/-! ## What Go's slices do -/

/-- `l[lo:hi]`. -/
def sliceOf (l : List α) (lo hi : ℤ) : Outcome ε (List α) :=
  if 0 ≤ lo ∧ lo ≤ hi ∧ hi ≤ l.length then .ok ((l.drop lo.toNat).take (hi - lo).toNat)
  else .panic "slice bounds out of range"

/-- `l[i]`. -/
def entryOf (l : List α) (i : ℤ) : Outcome ε α :=
  if i < 0 then .panic "index out of range"
  else match l[i.toNat]? with
    | some a => .ok a
    | none => .panic "index out of range"

/-- `make([]T, 0, capacity)`. -/
def makeSlice (capacity : ℤ) : Outcome ε Unit :=
  if capacity < 0 then .panic "makeslice: cap out of range" else .ok ()

/-- `sort.Slice`, which need not be stable: all that is known of the result is that it has the
same entries, in order if the comparison is one that orders. -/
structure SortSlice (α : Type) where
  sort : (α → α → Bool) → List α → List α
  perm : ∀ less l, (sort less l).Perm l
  sorted : ∀ less l, (∀ a b c, less b a = false → less c b = false → less c a = false) →
    (∀ a b, less a b = false ∨ less b a = false) →
    (sort less l).Pairwise fun a b => less b a = false

/-- The loop `for i := first; i < first+n; i++`, which may append a value for every entry. -/
def collect (l : List α) (visit : α → Outcome ε (Option β)) : ℕ → ℤ → Outcome ε (List β)
  | 0, _ => .ok []
  | n + 1, i => do
    let r ← entryOf l i
    let b ← visit r
    let later ← collect l visit n (i + 1)
    .ok (b.toList ++ later)

theorem entryOf_of_getElem? {l : List α} {i : ℕ} {a : α} (h : l[i]? = some a) :
    (entryOf l i : Outcome ε α) = .ok a := by
  rw [entryOf,if_neg (Int.not_lt.mpr (Int.natCast_nonneg i)),Int.toNat_natCast,h]

theorem collect_eq {l : List α} {visit : α → Outcome ε (Option β)} {whole : List β}
    (hvisit : List.Forall₂ (fun a b => visit a = .ok (some b)) l whole) {n i : ℕ}
    (hlength : i + n ≤ whole.length) : collect l visit n i = .ok ((whole.drop i).take n) := by
  induction n generalizing i with
  | zero => rfl
  | succ n ih =>
    have hi : i < whole.length := by omega
    have hi' : i < l.length := by rwa [hvisit.length_eq]
    have hentry : (entryOf l i : Outcome ε α) = .ok l[i] :=
      entryOf_of_getElem? (List.getElem?_eq_getElem hi')
    have hvalue : visit l[i] = .ok (some whole[i]) := hvisit.get hi' hi
    have hlater : collect l visit n ((i : ℤ) + 1) = .ok ((whole.drop (i + 1)).take n) := by
      exact_mod_cast ih (by omega)
    rw [collect,hentry,Outcome.ok_bind,hvalue,Outcome.ok_bind,hlater,Outcome.ok_bind,
      List.drop_eq_getElem_cons hi,List.take_succ_cons]
    rfl

theorem collect_error {l : List α} {visit : α → Outcome ε (Option β)} {e : ε}
    (hvisit : ∀ a ∈ l, (∃ b, visit a = .ok b) ∨ visit a = .error e) {n i : ℕ}
    (h : ∃ a ∈ (l.drop i).take n, visit a = .error e) : collect l visit n i = .error e := by
  induction n generalizing i with
  | zero =>
    obtain ⟨a,ha,_⟩ := h
    cases ha
  | succ n ih =>
    have hi : i < l.length := by
      by_contra hi
      obtain ⟨a,ha,_⟩ := h
      rw [List.drop_eq_nil_of_le (not_lt.mp hi)] at ha
      cases ha
    have hentry : (entryOf l i : Outcome ε α) = .ok l[i] :=
      entryOf_of_getElem? (List.getElem?_eq_getElem hi)
    rw [collect,hentry,Outcome.ok_bind]
    rcases hvisit l[i] (List.getElem_mem hi) with ⟨b,hb⟩ | hbad
    · have hlater : collect l visit n ((i : ℤ) + 1) = .error e := by
        refine mod_cast ih (i := i + 1) ?_
        obtain ⟨a,ha,herror⟩ := h
        rw [List.drop_eq_getElem_cons hi,List.take_succ_cons,List.mem_cons] at ha
        rcases ha with rfl | ha
        · rw [hb] at herror
          cases herror
        · exact ⟨a,ha,herror⟩
      rw [hb,Outcome.ok_bind,hlater,Outcome.error_bind]
    · rw [hbad,Outcome.error_bind]

theorem exists_forall₂ {R : α → β → Prop} {l : List α} (h : ∀ a ∈ l, ∃ b, R a b) :
    ∃ whole, List.Forall₂ R l whole ∧ ∀ b ∈ whole, ∃ a, R a b := by
  induction l with
  | nil => exact ⟨[],.nil,fun b hb => absurd hb List.not_mem_nil⟩
  | cons a l ih =>
    obtain ⟨b,hb⟩ := h a List.mem_cons_self
    obtain ⟨whole,hwhole,hall⟩ := ih fun a' ha' => h a' (List.mem_cons_of_mem _ ha')
    exact ⟨b :: whole,.cons hb hwhole,List.forall_mem_cons.mpr ⟨⟨a,hb⟩,hall⟩⟩

theorem take_min_eq_piece (l : List α) (size i : ℕ) :
    (l.drop (i * size)).take (min size (l.length - i * size)) = piece l size i := by
  rw [piece,List.take_eq_take_iff,List.length_drop]
  omega

/-! ## Choosing the page -/

def defaultPerPage : ℤ := 30
def maxPerPage : ℤ := 100

def validatePerPage (perPagePtr : Option ℤ) : ℤ :=
  match perPagePtr with
  | none => defaultPerPage
  | some perPage =>
    if perPage < 1 then defaultPerPage
    else if perPage > maxPerPage then maxPerPage
    else perPage

def validatePage (pagePtr : Option ℤ) (perPage totalCount : ℤ) : Except String ℤ :=
  if perPage < 1 then .error s!"zero or negative perPage: {perPage}"
  else match pagePtr with
    | none => .ok 1
    | some page =>
      let pages := (totalCount - 1).tdiv perPage + 1
      -- one page, even if it is empty
      let pages := if pages = 0 then 1 else pages
      if page ≤ 0 ∨ page > pages then
        .error s!"page should be within [1, {pages}] range, given {page}"
      else .ok page

def validateSkipCount (page perPage : ℤ) : ℤ :=
  let skipCount := (page - 1) * perPage
  if skipCount < 0 then 0 else skipCount

/-- The lines that the three endpoints share: the number of entries to skip and the number of
entries of the page. -/
def window (pagePtr perPagePtr : Option ℤ) (totalCount : ℤ) : Except String (ℤ × ℤ) := do
  let perPage := validatePerPage perPagePtr
  let page ← validatePage pagePtr perPage totalCount
  let skipCount := validateSkipCount page perPage
  .ok (skipCount,min perPage (totalCount - skipCount))

/-- The number of entries of a full page. -/
def pageLength (perPagePtr : Option ℤ) : ℕ := (validatePerPage perPagePtr).toNat

/-- The number of pages. -/
def pageCount (perPagePtr : Option ℤ) (total : ℕ) : ℕ :=
  max 1 ((total + pageLength perPagePtr - 1) / pageLength perPagePtr)

theorem validatePerPage_bounds (perPagePtr : Option ℤ) :
    1 ≤ validatePerPage perPagePtr ∧ validatePerPage perPagePtr ≤ 100 := by
  unfold validatePerPage defaultPerPage maxPerPage
  cases perPagePtr with
  | none => decide
  | some perPage =>
    dsimp only
    split_ifs <;> omega

theorem pageLength_pos (perPagePtr : Option ℤ) : 0 < pageLength perPagePtr := by
  have h := (validatePerPage_bounds perPagePtr).1
  unfold pageLength
  omega

theorem validatePerPage_eq (perPagePtr : Option ℤ) :
    validatePerPage perPagePtr = pageLength perPagePtr := by
  have h := (validatePerPage_bounds perPagePtr).1
  unfold pageLength
  omega

/-- Go's division rounds towards zero, which matters for an empty list: minus one over the
page length is zero, or minus one if the page length is one. -/
theorem pages_eq (perPagePtr : Option ℤ) (total : ℕ) :
    let pages := ((total : ℤ) - 1).tdiv (validatePerPage perPagePtr) + 1
    (if pages = 0 then 1 else pages) = pageCount perPagePtr total := by
  have hpos := pageLength_pos perPagePtr
  rw [validatePerPage_eq,pageCount]
  generalize pageLength perPagePtr = size at hpos
  dsimp only
  cases total with
  | zero =>
    have hcount : (0 + size - 1) / size = 0 := Nat.div_eq_of_lt (by omega)
    rw [hcount]
    rcases Nat.lt_or_ge 1 size with hsize | hsize
    · have hdiv : ((0 : ℕ) - 1 : ℤ).tdiv size = 0 := by
        change (-1 : ℤ).tdiv size = 0
        rw [Int.neg_tdiv,Int.tdiv_eq_zero_of_lt (by decide) (by omega),Int.neg_zero]
      rw [hdiv]
      rfl
    · obtain rfl : size = 1 := by omega
      decide
  | succ n =>
    have hcount : (n + 1 + size - 1) / size = n / size + 1 := by
      rw [show n + 1 + size - 1 = n + size by omega,Nat.add_div_right n hpos]
    have hdiv : ((n + 1 : ℕ) - 1 : ℤ).tdiv size = (n / size : ℕ) := by
      rw [show ((n + 1 : ℕ) - 1 : ℤ) = n by omega]
      exact Int.ofNat_tdiv n size
    rw [hcount,hdiv]
    generalize n / size = full
    rw [if_neg (by omega)]
    omega

theorem validatePage_some (page : ℤ) (perPagePtr : Option ℤ) (total : ℕ) :
    (1 ≤ page ∧ page ≤ pageCount perPagePtr total →
      validatePage (some page) (validatePerPage perPagePtr) total = .ok page) ∧
    (page < 1 ∨ pageCount perPagePtr total < page →
      ∃ e, validatePage (some page) (validatePerPage perPagePtr) total = .error e) := by
  have hbound := (validatePerPage_bounds perPagePtr).1
  have hpages := pages_eq perPagePtr total
  dsimp only at hpages
  unfold validatePage
  rw [if_neg (by omega)]
  dsimp only
  rw [hpages]
  refine ⟨fun hin => ?_,fun hout => ?_⟩
  · rw [if_neg (by omega)]
  · rw [if_pos (by omega)]
    exact ⟨_,rfl⟩

theorem pageCount_pos (perPagePtr : Option ℤ) (total : ℕ) : 1 ≤ pageCount perPagePtr total :=
  Nat.le_max_left _ _

theorem le_pageCount_mul (perPagePtr : Option ℤ) (total : ℕ) :
    total ≤ pageCount perPagePtr total * pageLength perPagePtr := by
  have hpos := pageLength_pos perPagePtr
  have hceil : (total + pageLength perPagePtr - 1) / pageLength perPagePtr ≤
      pageCount perPagePtr total := Nat.le_max_right _ _
  refine le_trans ?_ (Nat.mul_le_mul_right _ hceil)
  have hdiv := Nat.div_add_mod (total + pageLength perPagePtr - 1) (pageLength perPagePtr)
  have hmod := Nat.mod_lt (total + pageLength perPagePtr - 1) hpos
  rw [Nat.mul_comm] at hdiv
  omega

theorem mul_pageLength_le {perPagePtr : Option ℤ} {total i : ℕ}
    (h : i < pageCount perPagePtr total) : i * pageLength perPagePtr ≤ total := by
  have hpos := pageLength_pos perPagePtr
  cases i with
  | zero => omega
  | succ i =>
    have hlt : i + 1 < (total + pageLength perPagePtr - 1) / pageLength perPagePtr := by
      unfold pageCount at h
      omega
    have hmul := (Nat.le_div_iff_mul_le hpos).mp hlt
    rw [Nat.succ_mul] at hmul
    omega

theorem window_some {perPagePtr : Option ℤ} {total i : ℕ} (h : i < pageCount perPagePtr total) :
    window (some (i + 1)) perPagePtr total = .ok ((i * pageLength perPagePtr : ℕ),
      (min (pageLength perPagePtr) (total - i * pageLength perPagePtr) : ℕ)) := by
  have hpage := (validatePage_some (i + 1) perPagePtr total).1 ⟨by omega,by omega⟩
  have hle := mul_pageLength_le h
  have hskip : validateSkipCount (i + 1) (validatePerPage perPagePtr) =
      (i * pageLength perPagePtr : ℕ) := by
    rw [validateSkipCount,validatePerPage_eq,Int.add_sub_cancel]
    push_cast
    exact if_neg (Int.not_lt.mpr (by positivity))
  unfold window
  dsimp only
  rw [hpage]
  change Except.ok (validateSkipCount _ _,_) = _
  rw [hskip,validatePerPage_eq]
  congr 2
  omega

theorem window_other {perPagePtr : Option ℤ} {total : ℕ} {page : ℤ}
    (h : page < 1 ∨ pageCount perPagePtr total < page) :
    ∃ e, window (some page) perPagePtr total = .error e := by
  obtain ⟨e,he⟩ := (validatePage_some page perPagePtr total).2 h
  refine ⟨e,?_⟩
  unfold window
  dsimp only
  rw [he]
  rfl

theorem window_none (perPagePtr : Option ℤ) (total : ℕ) :
    window none perPagePtr total = window (some 1) perPagePtr total := by
  have hbound := (validatePerPage_bounds perPagePtr).1
  have hcount := pageCount_pos perPagePtr total
  have hone := (validatePage_some 1 perPagePtr total).1 ⟨by omega,by omega⟩
  have hnone : validatePage none (validatePerPage perPagePtr) total = .ok 1 := by
    rw [validatePage,if_neg (by omega)]
  unfold window
  dsimp only
  rw [hone,hnone]

/-! ## A partition into pages -/

/-- The pages together are the whole list, every other page number is refused, and a request
without a page number is one for the first page. -/
structure PagesOf (ask : Option ℤ → Outcome String γ) (entries : γ → List β) (pages : ℕ)
    (whole : List β) : Prop where
  partition : ∃ answers : List γ, answers.length = pages ∧
    (∀ (i : ℕ) answer, answers[i]? = some answer → ask (some (i + 1)) = .ok answer) ∧
    answers.flatMap entries = whole
  refused : ∀ page : ℤ, page < 1 ∨ pages < page → ∃ e, ask (some page) = .error e
  first : ask none = ask (some 1)
  safe : ∀ pagePtr, (ask pagePtr).isPanic = false

theorem pagesOf_window {ask : Option ℤ → Outcome String γ} {entries : γ → List β} {whole : List β}
    {total : ℕ} {perPagePtr : Option ℤ} (answer : ℤ → ℤ → Outcome String γ) (page : ℕ → γ)
    (htotal : whole.length = total)
    (hask : ∀ pagePtr, ask pagePtr = Outcome.ofExcept id (window pagePtr perPagePtr total) >>=
      fun w => answer w.1 w.2)
    (hentries : ∀ i, entries (page i) = piece whole (pageLength perPagePtr) i)
    (hanswer : ∀ i, i * pageLength perPagePtr ≤ total →
      answer (i * pageLength perPagePtr : ℕ)
        (min (pageLength perPagePtr) (total - i * pageLength perPagePtr) : ℕ) = .ok (page i)) :
    PagesOf ask entries (pageCount perPagePtr total) whole := by
  have hin : ∀ i < pageCount perPagePtr total, ask (some (i + 1)) = .ok (page i) := by
    intro i hi
    rw [hask,window_some hi]
    exact hanswer i (mul_pageLength_le hi)
  have hout : ∀ number, number < 1 ∨ (pageCount perPagePtr total : ℤ) < number →
      ∃ e, ask (some number) = .error e := by
    intro number hnumber
    obtain ⟨e,he⟩ := window_other hnumber
    rw [hask,he]
    exact ⟨e,rfl⟩
  have hfirst : ask none = ask (some 1) := by
    rw [hask,hask,window_none]
  have hsafe : ∀ number, (ask (some number)).isPanic = false := by
    intro number
    by_cases hnumber : number < 1 ∨ (pageCount perPagePtr total : ℤ) < number
    · obtain ⟨e,he⟩ := hout number hnumber
      rw [he,Outcome.isPanic_error]
    · have hok := hin (number - 1).toNat (by omega)
      rw [show (((number - 1).toNat : ℕ) + 1 : ℤ) = number by omega] at hok
      rw [hok,Outcome.isPanic_ok]
  refine ⟨⟨(List.range (pageCount perPagePtr total)).map page,?_,fun i a hi => ?_,?_⟩,hout,hfirst,
    fun pagePtr => ?_⟩
  · rw [List.length_map,List.length_range]
  · rw [List.getElem?_map,Option.map_eq_some_iff] at hi
    obtain ⟨j,hj,rfl⟩ := hi
    obtain ⟨hlt,rfl⟩ := List.getElem?_eq_some_iff.mp hj
    rw [List.length_range] at hlt
    rw [List.getElem_range]
    exact hin i hlt
  · rw [List.flatMap_map,funext hentries]
    exact flatMap_piece_eq_self (htotal ▸ le_pageCount_mul perPagePtr total)
  · cases pagePtr with
    | none => rw [hfirst,hsafe]
    | some number => exact hsafe number

/-! ## The endpoints -/

structure TxResult where
  height : ℤ
  index : UInt32
  tx : Tx
  result : ExecTxResult
  deriving DecidableEq

/-- What the endpoints read. `P` are the proofs of inclusion, `Q` the parsed queries. -/
structure RPC (H Q P : Type) where
  blockStore : BlockStore H
  /-- `LoadBlockMeta`, of which only the ID of the block is read. -/
  loadBlockMeta : ℤ → Option (BlockID H)
  loadValidators : ℤ → Except String ValidatorSet
  newQuery : String → Except String Q
  searchTxs : Q → Except String (List TxResult)
  searchBlocks : Q → Except String (List ℤ)
  hash : Tx → Bytes
  /-- The proof that a list of transactions has one at an index. -/
  merkleProof : List Tx → ℕ → P
  zeroProof : P
  sortTxs : SortSlice TxResult
  sortBlocks : SortSlice ℤ

structure ResultValidators where
  blockHeight : ℤ
  validators : ValidatorSet
  count : ℕ
  total : ℕ
  deriving DecidableEq

structure ResultTx (P : Type) where
  hash : Bytes
  height : ℤ
  index : UInt32
  txResult : ExecTxResult
  tx : Tx
  proof : P

structure ResultTxSearch (P : Type) where
  txs : List (ResultTx P)
  totalCount : ℕ

structure ResultBlock (H : Type) where
  block : Block H
  blockID : BlockID H

structure ResultBlockSearch (H : Type) where
  blocks : List (ResultBlock H)
  totalCount : ℕ

def getHeight {H : Type} (bs : BlockStore H) (heightPtr : Option ℤ) : Except String ℤ :=
  match heightPtr with
  | none => .ok bs.height
  | some height =>
    if height ≤ 0 then .error s!"height must be greater than 0, but got {height}"
    else if height > bs.height then
      .error (s!"height {height} must be less than or equal to the current blockchain height " ++
        s!"{bs.height}")
    else if height < bs.base then
      .error s!"height {height} is not available, lowest height is {bs.base}"
    else .ok height

def orderError : String := "expected order_by to be either \x60asc\x60 or \x60desc\x60 or empty"

def TxResult.before (a b : TxResult) : Bool :=
  if a.height = b.height then a.index < b.index else a.height < b.height

namespace RPC
variable {H Q P : Type}

def validators (rpc : RPC H Q P) (heightPtr pagePtr perPagePtr : Option ℤ) :
    Outcome String ResultValidators := do
  let height ← .ofExcept id (getHeight rpc.blockStore heightPtr)
  let validators ← .ofExcept id (rpc.loadValidators height)
  let totalCount := validators.length
  let (skipCount,pageSize) ← .ofExcept id (window pagePtr perPagePtr totalCount)
  let v ← sliceOf validators skipCount (skipCount + pageSize)
  .ok ⟨height,v,v.length,totalCount⟩

def sortedTxs (rpc : RPC H Q P) (orderBy : String) (results : List TxResult) :
    Except String (List TxResult) :=
  match orderBy with
  | "desc" => .ok (rpc.sortTxs.sort (fun a b => TxResult.before b a) results)
  | "asc" | "" => .ok (rpc.sortTxs.sort TxResult.before results)
  | _ => .error orderError

def sortedBlocks (rpc : RPC H Q P) (orderBy : String) (results : List ℤ) :
    Except String (List ℤ) :=
  match orderBy with
  | "desc" | "" => .ok (rpc.sortBlocks.sort (fun a b => a > b) results)
  | "asc" => .ok (rpc.sortBlocks.sort (fun a b => a < b) results)
  | _ => .error orderError

def proofOf (rpc : RPC H Q P) (txs : List Tx) (i : ℕ) : Outcome String P :=
  if i < txs.length then .ok (rpc.merkleProof txs i) else .panic "index out of range"

def proveTx (rpc : RPC H Q P) (r : TxResult) : Outcome String P :=
  let block := rpc.blockStore.loadBlock r.height
  if r.index.toNat > 2 ^ 31 - 1 then .error "index value overflows int on 32-bit systems"
  else match block with
    | none => .panic "invalid memory address or nil pointer dereference"
    | some block => rpc.proofOf block.txs r.index.toNat

def resultTx (rpc : RPC H Q P) (r : TxResult) (proof : P) : ResultTx P :=
  ⟨rpc.hash r.tx,r.height,r.index,r.result,r.tx,proof⟩

/-- The body of the loop of `TxSearch`. -/
def visitTx (rpc : RPC H Q P) (prove : Bool) (r : TxResult) :
    Outcome String (Option (ResultTx P)) := do
  let proof ← if prove then rpc.proveTx r else .ok rpc.zeroProof
  .ok (some (rpc.resultTx r proof))

def txSearch (rpc : RPC H Q P) (query : String) (prove : Bool) (pagePtr perPagePtr : Option ℤ)
    (orderBy : String) : Outcome String (ResultTxSearch P) := do
  let q ← .ofExcept id (rpc.newQuery query)
  let results ← .ofExcept id (rpc.searchTxs q)
  let results ← .ofExcept id (rpc.sortedTxs orderBy results)
  let totalCount := results.length
  let (skipCount,pageSize) ← .ofExcept id (window pagePtr perPagePtr totalCount)
  makeSlice pageSize
  let apiResults ← collect results (rpc.visitTx prove) pageSize.toNat skipCount
  .ok ⟨apiResults,totalCount⟩

def visitBlock (rpc : RPC H Q P) (height : ℤ) : Outcome String (Option (ResultBlock H)) :=
  match rpc.blockStore.loadBlock height with
  | none => .ok none
  | some block => match rpc.loadBlockMeta block.header.height with
    | none => .ok none
    | some blockID => .ok (some ⟨block,blockID⟩)

def blockSearch (rpc : RPC H Q P) (query : String) (pagePtr perPagePtr : Option ℤ)
    (orderBy : String) : Outcome String (ResultBlockSearch H) := do
  let q ← .ofExcept id (rpc.newQuery query)
  let results ← .ofExcept id (rpc.searchBlocks q)
  let results ← .ofExcept id (rpc.sortedBlocks orderBy results)
  let totalCount := results.length
  let (skipCount,pageSize) ← .ofExcept id (window pagePtr perPagePtr totalCount)
  makeSlice pageSize
  let apiResults ← collect results rpc.visitBlock pageSize.toNat skipCount
  .ok ⟨apiResults,totalCount⟩

/-! ## Orders -/

end RPC

/-- `a` may stand before `b` in the ascending order. -/
def TxResult.NotAfter (a b : TxResult) : Prop :=
  a.height < b.height ∨ a.height = b.height ∧ a.index ≤ b.index

def TxResult.InOrder (orderBy : String) (a b : TxResult) : Prop :=
  if orderBy = "desc" then b.NotAfter a else a.NotAfter b

def BlocksInOrder (orderBy : String) (a b : ℤ) : Prop := if orderBy = "asc" then a ≤ b else b ≤ a

/-- The values of `order_by` that are accepted. -/
def IsOrder (orderBy : String) : Prop := orderBy = "desc" ∨ orderBy = "asc" ∨ orderBy = ""

namespace TxResult

theorem before_eq_false {a b : TxResult} : before b a = false ↔ a.NotAfter b := by
  unfold before NotAfter
  split
  · next h =>
    rw [decide_eq_false_iff_not,UInt32.not_lt]
    exact ⟨fun hle => .inr ⟨h.symm,hle⟩,fun hor => hor.elim (fun hlt => by omega) fun hand => hand.2⟩
  · next h =>
    rw [decide_eq_false_iff_not]
    exact ⟨fun hle => .inl (by omega),fun hor => hor.elim (fun hlt => by omega) fun hand => by omega⟩

theorem NotAfter.trans {a b c : TxResult} (hab : a.NotAfter b) (hbc : b.NotAfter c) :
    a.NotAfter c := by
  rcases hab with hab | ⟨hab,hi⟩
  · rcases hbc with hbc | ⟨hbc,_⟩
    · exact .inl (hab.trans hbc)
    · exact .inl (hbc ▸ hab)
  · rcases hbc with hbc | ⟨hbc,hi'⟩
    · exact .inl (hab ▸ hbc)
    · exact .inr ⟨hab.trans hbc,UInt32.le_trans hi hi'⟩

theorem notAfter_total (a b : TxResult) : a.NotAfter b ∨ b.NotAfter a := by
  rcases Int.lt_trichotomy a.height b.height with h | h | h
  · exact .inl (.inl h)
  · exact (UInt32.le_total a.index b.index).imp (fun hi => .inr ⟨h,hi⟩) fun hi => .inr ⟨h.symm,hi⟩
  · exact .inr (.inl h)

end TxResult

namespace RPC
variable {H Q P : Type} (rpc : RPC H Q P)

theorem sortedTxs_spec {orderBy : String} (h : IsOrder orderBy) (results : List TxResult) :
    ∃ sorted, rpc.sortedTxs orderBy results = .ok sorted ∧ sorted.Perm results ∧
      sorted.Pairwise (TxResult.InOrder orderBy) := by
  have hasc := rpc.sortTxs.sorted TxResult.before results
    (fun a b c hab hbc => TxResult.before_eq_false.mpr
      ((TxResult.before_eq_false.mp hab).trans (TxResult.before_eq_false.mp hbc)))
    (fun a b => by
      rw [TxResult.before_eq_false,TxResult.before_eq_false]
      exact (TxResult.notAfter_total b a))
  have hdesc := rpc.sortTxs.sorted (fun a b => TxResult.before b a) results
    (fun a b c hab hbc => TxResult.before_eq_false.mpr
      ((TxResult.before_eq_false.mp hbc).trans (TxResult.before_eq_false.mp hab)))
    (fun a b => by
      rw [TxResult.before_eq_false,TxResult.before_eq_false]
      exact (TxResult.notAfter_total a b))
  rcases h with rfl | rfl | rfl
  · exact ⟨_,rfl,rpc.sortTxs.perm _ _,hdesc.imp fun h => TxResult.before_eq_false.mp h⟩
  · exact ⟨_,rfl,rpc.sortTxs.perm _ _,hasc.imp fun h => TxResult.before_eq_false.mp h⟩
  · exact ⟨_,rfl,rpc.sortTxs.perm _ _,hasc.imp fun h => TxResult.before_eq_false.mp h⟩

theorem sortedBlocks_spec {orderBy : String} (h : IsOrder orderBy) (results : List ℤ) :
    ∃ sorted, rpc.sortedBlocks orderBy results = .ok sorted ∧ sorted.Perm results ∧
      sorted.Pairwise (BlocksInOrder orderBy) := by
  have hasc := rpc.sortBlocks.sorted (fun a b => a < b) results
    (fun a b c hab hbc => by simp only [decide_eq_false_iff_not] at *; omega)
    (fun a b => by simp only [decide_eq_false_iff_not]; omega)
  have hdesc := rpc.sortBlocks.sorted (fun a b => a > b) results
    (fun a b c hab hbc => by simp only [decide_eq_false_iff_not] at *; omega)
    (fun a b => by simp only [decide_eq_false_iff_not]; omega)
  have hge : ∀ {a b : ℤ}, decide (b > a) = false → b ≤ a := fun h =>
    Int.not_lt.mp (of_decide_eq_false h)
  have hle : ∀ {a b : ℤ}, decide (b < a) = false → a ≤ b := fun h =>
    Int.not_lt.mp (of_decide_eq_false h)
  rcases h with rfl | rfl | rfl
  · exact ⟨_,rfl,rpc.sortBlocks.perm _ _,hdesc.imp fun h => hge h⟩
  · exact ⟨_,rfl,rpc.sortBlocks.perm _ _,hasc.imp fun h => hle h⟩
  · exact ⟨_,rfl,rpc.sortBlocks.perm _ _,hdesc.imp fun h => hge h⟩

/-! ## The pages of the endpoints -/

def BlockStored (height : ℤ) : Prop :=
  ∃ block blockID, rpc.blockStore.loadBlock height = some block ∧
    rpc.loadBlockMeta block.header.height = some blockID

def Provable (r : TxResult) : Prop :=
  r.index.toNat ≤ 2 ^ 31 - 1 ∧
    ∃ block, rpc.blockStore.loadBlock r.height = some block ∧ r.index.toNat < block.txs.length

/-- What is answered for an entry. -/
def answerTx (prove : Bool) (r : TxResult) : ResultTx P :=
  rpc.resultTx r (if prove then
    rpc.merkleProof ((rpc.blockStore.loadBlock r.height).elim [] Block.txs) r.index.toNat
    else rpc.zeroProof)

theorem visitTx_eq {prove : Bool} {r : TxResult} (h : prove = true → rpc.Provable r) :
    rpc.visitTx prove r = .ok (some (rpc.answerTx prove r)) := by
  cases prove with
  | false => rfl
  | true =>
    obtain ⟨hindex,block,hblock,hlength⟩ := h rfl
    have hproof : rpc.proveTx r = .ok (rpc.merkleProof block.txs r.index.toNat) := by
      rw [proveTx,hblock,if_neg (Nat.not_lt.mpr hindex)]
      exact if_pos hlength
    rw [visitTx,if_pos rfl,hproof,answerTx,if_pos rfl,hblock]
    rfl

theorem visitTx_large {r : TxResult} (h : 2 ^ 31 - 1 < r.index.toNat) :
    rpc.visitTx true r = .error "index value overflows int on 32-bit systems" := by
  have hprove : rpc.proveTx r = .error "index value overflows int on 32-bit systems" := by
    rw [proveTx,if_pos h]
  rw [visitTx,if_pos rfl,hprove,Outcome.error_bind]

theorem visitBlock_eq {height : ℤ} (h : rpc.BlockStored height) :
    ∃ b, rpc.visitBlock height = .ok (some b) ∧ b.block.header.height = height ∧
      rpc.blockStore.loadBlock height = some b.block ∧ rpc.loadBlockMeta height = some b.blockID := by
  obtain ⟨block,blockID,hblock,hmeta⟩ := h
  obtain ⟨_,_,_,hheight⟩ := BlockStore.loadBlock_eq_some hblock
  refine ⟨⟨block,blockID⟩,?_,hheight,hblock,hheight ▸ hmeta⟩
  rw [visitBlock,hblock]
  dsimp only
  rw [hmeta]

theorem pagesOf_collect {visit : α → Outcome String (Option β)} {l : List α} {whole : List β}
    (hvisit : List.Forall₂ (fun a b => visit a = .ok (some b)) l whole)
    (perPagePtr : Option ℤ) (wrap : List β → γ) (entries : γ → List β)
    (hentries : ∀ bs, entries (wrap bs) = bs) :
    PagesOf (fun pagePtr => do
        let (skipCount,pageSize) ← .ofExcept id (window pagePtr perPagePtr l.length)
        makeSlice pageSize
        let bs ← collect l visit pageSize.toNat skipCount
        .ok (wrap bs)) entries (pageCount perPagePtr l.length) whole := by
  have hlength := hvisit.length_eq
  have hmake : ∀ n : ℕ, (makeSlice n : Outcome String Unit) = .ok () :=
    fun n => if_neg (Int.not_lt.mpr (Int.natCast_nonneg n))
  refine pagesOf_window (fun skipCount pageSize => do
      makeSlice pageSize
      let bs ← collect l visit pageSize.toNat skipCount
      .ok (wrap bs))
    (fun i => wrap (piece whole (pageLength perPagePtr) i)) hlength.symm (fun pagePtr => rfl)
    (fun i => hentries _) fun i hi => ?_
  have hcollect := collect_eq hvisit (n := min (pageLength perPagePtr)
    (l.length - i * pageLength perPagePtr)) (i := i * pageLength perPagePtr) (by omega)
  rw [hmake,Outcome.ok_bind,Int.toNat_natCast,hcollect,Outcome.ok_bind,hlength,take_min_eq_piece]

theorem pagesOf_validators {heightPtr : Option ℤ} {height : ℤ} {validators : ValidatorSet}
    (hheight : getHeight rpc.blockStore heightPtr = .ok height)
    (hload : rpc.loadValidators height = .ok validators) (perPagePtr : Option ℤ) :
    PagesOf (fun pagePtr => rpc.validators heightPtr pagePtr perPagePtr)
      ResultValidators.validators (pageCount perPagePtr validators.length) validators := by
  refine pagesOf_window (fun skipCount pageSize => do
      let v ← sliceOf validators skipCount (skipCount + pageSize)
      .ok ⟨height,v,v.length,validators.length⟩)
    (fun i => ⟨height,piece validators (pageLength perPagePtr) i,
      (piece validators (pageLength perPagePtr) i).length,validators.length⟩)
    rfl (fun pagePtr => ?_) (fun i => rfl) fun i hi => ?_
  · rw [RPC.validators,hheight,Outcome.ofExcept_ok,Outcome.ok_bind,hload,Outcome.ofExcept_ok,
      Outcome.ok_bind]
  have hslice : (sliceOf validators (i * pageLength perPagePtr : ℕ)
      ((i * pageLength perPagePtr : ℕ) + (min (pageLength perPagePtr)
        (validators.length - i * pageLength perPagePtr) : ℕ)) : Outcome String _) =
      .ok (piece validators (pageLength perPagePtr) i) := by
    rw [sliceOf,if_pos (by omega),← take_min_eq_piece]
    congr 3
    omega
  rw [hslice,Outcome.ok_bind]

theorem pagesOf_txSearch {query orderBy : String} {q : Q} {results : List TxResult} {prove : Bool}
    (hquery : rpc.newQuery query = .ok q) (hsearch : rpc.searchTxs q = .ok results)
    (horder : IsOrder orderBy) (hprovable : prove = true → ∀ r ∈ results, rpc.Provable r)
    (perPagePtr : Option ℤ) :
    ∃ sorted : List TxResult, sorted.Perm results ∧
      sorted.Pairwise (TxResult.InOrder orderBy) ∧
      PagesOf (fun pagePtr => rpc.txSearch query prove pagePtr perPagePtr orderBy)
        ResultTxSearch.txs (pageCount perPagePtr results.length)
        (sorted.map (rpc.answerTx prove)) := by
  obtain ⟨sorted,hsorted,hperm,hpairwise⟩ := rpc.sortedTxs_spec horder results
  refine ⟨sorted,hperm,hpairwise,?_⟩
  have hvisit : List.Forall₂ (fun r b => rpc.visitTx prove r = .ok (some b)) sorted
      (sorted.map (rpc.answerTx prove)) := by
    rw [List.forall₂_map_right_iff,List.forall₂_same]
    exact fun r hr => rpc.visitTx_eq fun hprove => hprovable hprove r (hperm.mem_iff.mp hr)
  have hpages := pagesOf_collect hvisit perPagePtr (fun txs => ⟨txs,sorted.length⟩)
    ResultTxSearch.txs fun _ => rfl
  rw [hperm.length_eq] at hpages
  convert hpages using 2
  rw [txSearch,hquery,Outcome.ofExcept_ok,Outcome.ok_bind,hsearch,Outcome.ofExcept_ok,
    Outcome.ok_bind,hsorted,Outcome.ofExcept_ok,Outcome.ok_bind,hperm.length_eq]

/-- A page with an entry that has no proof is refused. -/
theorem txSearch_large {query orderBy : String} {q : Q} {results : List TxResult}
    (hquery : rpc.newQuery query = .ok q) (hsearch : rpc.searchTxs q = .ok results)
    (horder : IsOrder orderBy)
    (hentries : ∀ r ∈ results, rpc.Provable r ∨ 2 ^ 31 - 1 < r.index.toNat)
    (perPagePtr : Option ℤ) :
    ∃ sorted : List TxResult, sorted.Perm results ∧
      sorted.Pairwise (TxResult.InOrder orderBy) ∧
      ∀ i < pageCount perPagePtr results.length,
        (∃ r ∈ piece sorted (pageLength perPagePtr) i, 2 ^ 31 - 1 < r.index.toNat) →
        rpc.txSearch query true (some (i + 1)) perPagePtr orderBy =
          .error "index value overflows int on 32-bit systems" := by
  obtain ⟨sorted,hsorted,hperm,hpairwise⟩ := rpc.sortedTxs_spec horder results
  refine ⟨sorted,hperm,hpairwise,fun i hi hlarge => ?_⟩
  have hvisit : ∀ r ∈ sorted, (∃ b, rpc.visitTx true r = .ok b) ∨
      rpc.visitTx true r = .error "index value overflows int on 32-bit systems" :=
    fun r hr => (hentries r (hperm.mem_iff.mp hr)).imp
      (fun h => ⟨_,rpc.visitTx_eq fun _ => h⟩) (rpc.visitTx_large ·)
  have hcollect := collect_error hvisit (i := i * pageLength perPagePtr)
    (n := min (pageLength perPagePtr) (sorted.length - i * pageLength perPagePtr)) (by
      rw [take_min_eq_piece]
      exact hlarge.imp fun r hr => ⟨hr.1,rpc.visitTx_large hr.2⟩)
  rw [txSearch,hquery,Outcome.ofExcept_ok,Outcome.ok_bind,hsearch,Outcome.ofExcept_ok,
    Outcome.ok_bind,hsorted,Outcome.ofExcept_ok,Outcome.ok_bind,hperm.length_eq]
  dsimp only
  rw [window_some hi,Outcome.ofExcept_ok,Outcome.ok_bind]
  dsimp only
  rw [makeSlice,if_neg (by omega),Outcome.ok_bind,Int.toNat_natCast,← hperm.length_eq,hcollect,
    Outcome.error_bind]

theorem pagesOf_blockSearch {query orderBy : String} {q : Q} {results : List ℤ}
    (hquery : rpc.newQuery query = .ok q) (hsearch : rpc.searchBlocks q = .ok results)
    (horder : IsOrder orderBy) (hstored : ∀ height ∈ results, rpc.BlockStored height)
    (perPagePtr : Option ℤ) :
    ∃ whole : List (ResultBlock H), (whole.map fun b => b.block.header.height).Perm results ∧
      (whole.map fun b => b.block.header.height).Pairwise (BlocksInOrder orderBy) ∧
      (∀ b ∈ whole, rpc.blockStore.loadBlock b.block.header.height = some b.block ∧
        rpc.loadBlockMeta b.block.header.height = some b.blockID) ∧
      PagesOf (fun pagePtr => rpc.blockSearch query pagePtr perPagePtr orderBy)
        ResultBlockSearch.blocks (pageCount perPagePtr results.length) whole := by
  obtain ⟨sorted,hsorted,hperm,hpairwise⟩ := rpc.sortedBlocks_spec horder results
  obtain ⟨whole,hwhole,hall⟩ := exists_forall₂ fun height hheight =>
    rpc.visitBlock_eq (hstored height (hperm.mem_iff.mp hheight))
  have hheights : whole.map (fun b => b.block.header.height) = sorted := by
    refine List.forall₂_eq_eq_eq ▸ List.forall₂_map_left_iff.mpr (hwhole.flip.imp ?_)
    exact fun b height h => h.2.1
  have hfound : ∀ b ∈ whole, rpc.blockStore.loadBlock b.block.header.height = some b.block ∧
      rpc.loadBlockMeta b.block.header.height = some b.blockID := by
    intro b hb
    obtain ⟨height,_,hheight,hloaded⟩ := hall b hb
    rwa [hheight]
  have hpages := pagesOf_collect (hwhole.imp fun _ _ h => h.1) perPagePtr
    (fun blocks => ⟨blocks,sorted.length⟩) ResultBlockSearch.blocks fun _ => rfl
  refine ⟨whole,hheights ▸ hperm,hheights ▸ hpairwise,hfound,?_⟩
  rw [hperm.length_eq] at hpages
  convert hpages using 2
  rw [blockSearch,hquery,Outcome.ofExcept_ok,Outcome.ok_bind,hsearch,Outcome.ofExcept_ok,
    Outcome.ok_bind,hsorted,Outcome.ofExcept_ok,Outcome.ok_bind,hperm.length_eq]

/-- For every list and every `per_page`. Proofs of inclusion are asked for entries that have
one: the code refuses an index above the largest 32-bit integer, and with it the page. -/
theorem pages_partition (rpc : RPC H Q P) (perPagePtr : Option ℤ) :
    (∀ heightPtr height validators, getHeight rpc.blockStore heightPtr = .ok height →
      rpc.loadValidators height = .ok validators →
      PagesOf (fun pagePtr => rpc.validators heightPtr pagePtr perPagePtr)
        ResultValidators.validators (pageCount perPagePtr validators.length) validators) ∧
    (∀ query q results prove orderBy, rpc.newQuery query = .ok q →
      rpc.searchTxs q = .ok results → IsOrder orderBy →
      (prove = true → ∀ r ∈ results, rpc.Provable r) →
      ∃ sorted : List TxResult, sorted.Perm results ∧
        sorted.Pairwise (TxResult.InOrder orderBy) ∧
        PagesOf (fun pagePtr => rpc.txSearch query prove pagePtr perPagePtr orderBy)
          ResultTxSearch.txs (pageCount perPagePtr results.length)
          (sorted.map (rpc.answerTx prove))) ∧
    (∀ query q results orderBy, rpc.newQuery query = .ok q →
      rpc.searchTxs q = .ok results → IsOrder orderBy →
      (∀ r ∈ results, rpc.Provable r ∨ 2 ^ 31 - 1 < r.index.toNat) →
      ∃ sorted : List TxResult, sorted.Perm results ∧
        sorted.Pairwise (TxResult.InOrder orderBy) ∧
        ∀ i < pageCount perPagePtr results.length,
          (∃ r ∈ piece sorted (pageLength perPagePtr) i, 2 ^ 31 - 1 < r.index.toNat) →
          rpc.txSearch query true (some (i + 1)) perPagePtr orderBy =
            .error "index value overflows int on 32-bit systems") ∧
    ∀ query q results orderBy, rpc.newQuery query = .ok q →
      rpc.searchBlocks q = .ok results → IsOrder orderBy →
      (∀ height ∈ results, rpc.BlockStored height) →
      ∃ whole : List (ResultBlock H), (whole.map fun b => b.block.header.height).Perm results ∧
        (whole.map fun b => b.block.header.height).Pairwise (BlocksInOrder orderBy) ∧
        (∀ b ∈ whole, rpc.blockStore.loadBlock b.block.header.height = some b.block ∧
          rpc.loadBlockMeta b.block.header.height = some b.blockID) ∧
        PagesOf (fun pagePtr => rpc.blockSearch query pagePtr perPagePtr orderBy)
          ResultBlockSearch.blocks (pageCount perPagePtr results.length) whole := by
  refine ⟨fun heightPtr height validators hheight hload => ?_,
    fun query q results prove orderBy hquery hsearch horder hprovable => ?_,
    fun query q results orderBy hquery hsearch horder hentries => ?_,
    fun query q results orderBy hquery hsearch horder hstored => ?_⟩
  · exact rpc.pagesOf_validators hheight hload perPagePtr
  · exact rpc.pagesOf_txSearch hquery hsearch horder hprovable perPagePtr
  · exact rpc.txSearch_large hquery hsearch horder hentries perPagePtr
  · exact rpc.pagesOf_blockSearch hquery hsearch horder hstored perPagePtr

end RPC

namespace Sample

/-- A stable sort is one that `sort.Slice` may be. -/
def mergeSortSlice (α : Type) : SortSlice α where
  sort less l := l.mergeSort fun a b => !less b a
  perm less l := List.mergeSort_perm l _
  sorted less l htrans htotal := by
    refine (List.pairwise_mergeSort (fun a b c hab hbc => ?_) (fun a b => ?_) l).imp fun h => ?_
    · rw [Bool.not_eq_true'] at *
      exact htrans a b c hab hbc
    · rw [Bool.or_eq_true,Bool.not_eq_true',Bool.not_eq_true']
      exact (htotal a b).symm
    · rwa [Bool.not_eq_true'] at h

def fifthHeader : Header ℕ where
  version := ⟨11,0⟩
  chainID := "test-chain"
  height := 5
  time := 0
  lastBlockID := .zero ℕ
  lastCommitHash := none
  dataHash := none
  validatorsHash := none
  nextValidatorsHash := none
  consensusHash := none
  appHash := []
  lastResultsHash := none
  evidenceHash := none
  proposerAddress := []

/-- One block is stored, with these transactions. -/
def oneBlock (txs : List Tx) : BlockStore ℕ where
  base := 1
  height := 5
  blocks := [⟨⟨fifthHeader,txs,[],⟨4,0,.zero ℕ,[]⟩⟩,.zero ℕ,⟨5,0,.zero ℕ,[]⟩⟩]

/-- Every search finds these transactions of the block. -/
def searching (txs : List Tx) (found : List TxResult) : RPC ℕ Unit ℕ where
  blockStore := oneBlock txs
  loadBlockMeta _ := some (.zero ℕ)
  loadValidators _ := .ok []
  newQuery _ := .ok ()
  searchTxs _ := .ok found
  searchBlocks _ := .ok [5]
  hash tx := tx
  merkleProof _ i := i
  zeroProof := 0
  sortTxs := mergeSortSlice TxResult
  sortBlocks := mergeSortSlice ℤ

theorem loadBlock_oneBlock (txs : List Tx) :
    (oneBlock txs).loadBlock 5 = some ⟨fifthHeader,txs,[],⟨4,0,.zero ℕ,[]⟩⟩ := rfl

def twoTxs : List TxResult := [⟨5,1,[2],⟨0,[],0,0⟩⟩,⟨5,0,[1],⟨0,[],0,0⟩⟩]

/-- Two pages of one proved transaction each. -/
theorem twoTxs_pages : ∃ sorted : List TxResult, sorted.Perm twoTxs ∧
    sorted.Pairwise (TxResult.InOrder "") ∧
    PagesOf (fun pagePtr => (searching [[1],[2]] twoTxs).txSearch "" true pagePtr (some 1) "")
      ResultTxSearch.txs 2 (sorted.map ((searching [[1],[2]] twoTxs).answerTx true)) := by
  refine ((searching [[1],[2]] twoTxs).pages_partition (some 1)).2.1 "" () twoTxs true "" rfl rfl
    (.inr (.inr rfl)) fun _ r hr => ?_
  rcases List.mem_pair.mp hr with rfl | rfl
  · exact ⟨by decide,_,loadBlock_oneBlock _,by decide⟩
  · exact ⟨by decide,_,loadBlock_oneBlock _,by decide⟩

def largeIndex : TxResult := ⟨5,2147483648,[],⟨0,[],0,0⟩⟩

def largeBlock : RPC ℕ Unit ℕ := searching (List.replicate (2 ^ 31 + 1) []) [largeIndex]

/-- The block is stored and has the transaction, but its page is refused if proofs are asked
for. -/
theorem largeIndex_refused : largeBlock.BlockStored 5 ∧
    (List.replicate (2 ^ 31 + 1) ([] : Tx))[largeIndex.index.toNat]? = some largeIndex.tx ∧
    largeBlock.txSearch "" true (some 1) none "" =
      .error "index value overflows int on 32-bit systems" ∧
    ∀ whole, ¬PagesOf (fun pagePtr => largeBlock.txSearch "" true pagePtr none "")
      ResultTxSearch.txs (pageCount none 1) whole := by
  have hanswer : largeBlock.txSearch "" true (some 1) none "" =
      .error "index value overflows int on 32-bit systems" := by
    obtain ⟨sorted,hperm,_,hlarge⟩ := largeBlock.txSearch_large rfl rfl
      (.inr (.inr rfl)) (fun r hr => .inr (by rw [List.mem_singleton.mp hr]; decide)) none
    rw [List.perm_singleton.mp hperm] at hlarge
    exact hlarge 0 (by decide) ⟨largeIndex,List.mem_singleton_self _,by decide⟩
  refine ⟨⟨_,_,loadBlock_oneBlock _,rfl⟩,?_,hanswer,fun whole hpages => ?_⟩
  · rw [List.getElem?_replicate,if_pos (by decide)]
    rfl
  · obtain ⟨answers,hlength,hok,_⟩ := hpages.partition
    obtain ⟨answer,hfirst⟩ : ∃ answer, answers[0]? = some answer :=
      ⟨_,List.getElem?_eq_getElem (by rw [hlength]; decide)⟩
    cases hanswer.symm.trans (hok 0 answer hfirst)

end Sample
end Landslide
