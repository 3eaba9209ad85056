import Landslide.Database.Iterator
import Landslide.Lib.KeySort
import Landslide.Lib.Updates

/-! # Batches of writes

A batch collects operations and sends them in one request. `Write` reads the operations
backwards and keeps the first one it sees of each key, puts and deletes in lists of their
own, so the request does not say in which order they were made.
-/
namespace Landslide.Database

/-! ## The server -/

/-- A single change that the server can be asked for. -/
inductive Request where
  | put (e : PutRequest)
  | delete (key : Bytes)
  deriving DecidableEq

def Request.key : Request → Bytes
  | .put e => e.key
  | .delete key => key

def Request.value : Request → Option Bytes
  | .put e => some e.value
  | .delete _ => none

structure WriteBatchRequest where
  puts : List PutRequest
  deletes : List Bytes

def WriteBatchRequest.items (r : WriteBatchRequest) : List Request :=
  r.puts.map .put ++ r.deletes.map .delete

inductive ErrorEnum where
  | unspecified
  | closed
  | notFound

/-- `ErrEnumToError`: a code that is not in the map gives nil as well. -/
def errEnumToError : ErrorEnum → Option DBError
  | .closed => some .closed
  | .notFound => none
  | .unspecified => none

theorem key_ne_of_lt {x y : PutRequest} (h : x.key < y.key) : x.key ≠ y.key := by
  intro heq
  rw [heq] at h
  exact List.lt_irrefl _ h

theorem ne_of_key_lt {x y : PutRequest} (h : x.key < y.key) : x ≠ y :=
  fun heq => key_ne_of_lt h (congrArg PutRequest.key heq)

namespace Content

@[ext] theorem ext {c d : Content} (h : c.entries = d.entries) : c = d := by
  cases c
  cases d
  cases h
  rfl

def get (c : Content) (key : Bytes) : Option Bytes :=
  (c.entries.find? (fun e => e.key = key)).map PutRequest.value

def put (c : Content) (e : PutRequest) : Content where
  entries := c.entries.filter (fun x => x.key < e.key) ++
    e :: c.entries.filter (fun x => e.key < x.key)
  sorted := by
    refine List.pairwise_append.mpr ⟨c.sorted.filter _,?_,?_⟩
    · refine List.pairwise_cons.mpr ⟨fun x hx => ?_,c.sorted.filter _⟩
      simpa using (List.mem_filter.mp hx).2
    · intro x hx y hy
      have hxe : x.key < e.key := by simpa using (List.mem_filter.mp hx).2
      rcases List.mem_cons.mp hy with rfl | hy
      · exact hxe
      · have hey : e.key < y.key := by simpa using (List.mem_filter.mp hy).2
        exact List.lt_trans hxe hey

def delete (c : Content) (key : Bytes) : Content :=
  ⟨c.entries.filter (fun x => x.key ≠ key),c.sorted.filter _⟩

def apply (c : Content) : Request → Content
  | .put e => c.put e
  | .delete key => c.delete key

theorem key_injOn (c : Content) {x y : PutRequest} (hx : x ∈ c.entries) (hy : y ∈ c.entries)
    (h : x.key = y.key) : x = y := by
  have hnodup : (c.entries.map PutRequest.key).Nodup :=
    List.pairwise_map.mpr (c.sorted.imp key_ne_of_lt)
  exact List.inj_on_of_nodup_map hnodup hx hy h

theorem get_eq_some (c : Content) {key value : Bytes} :
    c.get key = some value ↔ ⟨key,value⟩ ∈ c.entries := by
  unfold get
  constructor
  · intro h
    obtain ⟨e,he,rfl⟩ := Option.map_eq_some_iff.mp h
    have hkey : e.key = key := by simpa using List.find?_some he
    exact hkey ▸ List.mem_of_find?_eq_some he
  · intro h
    obtain ⟨e,he⟩ : ∃ e, c.entries.find? (fun e => e.key = key) = some e :=
      Option.isSome_iff_exists.mp (List.find?_isSome.mpr ⟨_,h,by simp⟩)
    have hkey : e.key = key := by simpa using List.find?_some he
    rw [he,c.key_injOn (List.mem_of_find?_eq_some he) h hkey,Option.map_some]

theorem ext_get {c d : Content} (h : c.get = d.get) : c = d := by
  have hmem (e : PutRequest) : e ∈ c.entries ↔ e ∈ d.entries := by
    have hc : c.get e.key = some e.value ↔ e ∈ c.entries := c.get_eq_some
    have hd : d.get e.key = some e.value ↔ e ∈ d.entries := d.get_eq_some
    rw [← hc,← hd,h]
  have hperm : c.entries.Perm d.entries := (List.perm_ext_iff_of_nodup
    (c.sorted.imp ne_of_key_lt) (d.sorted.imp ne_of_key_lt)).mpr hmem
  exact ext (perm_eq_of_strict hperm c.sorted d.sorted)

theorem mem_put {c : Content} {e x : PutRequest} :
    x ∈ (c.put e).entries ↔ x = e ∨ x ∈ c.entries ∧ x.key ≠ e.key := by
  simp only [put,List.mem_append,List.mem_cons,List.mem_filter,decide_eq_true_eq]
  constructor
  · rintro (⟨hx,hlt⟩ | rfl | ⟨hx,hlt⟩)
    · exact Or.inr ⟨hx,key_ne_of_lt hlt⟩
    · exact Or.inl rfl
    · exact Or.inr ⟨hx,(key_ne_of_lt hlt).symm⟩
  · rintro (rfl | ⟨hx,hne⟩)
    · exact Or.inr (Or.inl rfl)
    · by_cases hlt : x.key < e.key
      · exact Or.inl ⟨hx,hlt⟩
      · have hgt : e.key < x.key := by
          by_contra hnot
          exact hne (Std.Trichotomous.trichotomous _ _ hlt hnot)
        exact Or.inr (Or.inr ⟨hx,hgt⟩)

theorem mem_delete {c : Content} {key : Bytes} {x : PutRequest} :
    x ∈ (c.delete key).entries ↔ x ∈ c.entries ∧ x.key ≠ key := by
  simp [delete]

end Content

def updating : Updating Request Bytes Bytes := ⟨Request.key,Request.value⟩

theorem Content.get_apply (c : Content) (r : Request) :
    (c.apply r).get = updating.apply c.get r := by
  funext key
  apply Option.ext
  intro value
  rw [Content.get_eq_some,Updating.apply]
  cases r with
  | put e =>
    change _ ∈ (c.put e).entries ↔ Function.update c.get e.key (some e.value) key = some value
    rw [mem_put]
    by_cases hkey : key = e.key
    · subst hkey
      cases e
      simp [eq_comm]
    · rw [Function.update_of_ne hkey,get_eq_some]
      constructor
      · rintro (rfl | ⟨h,-⟩)
        · exact absurd rfl hkey
        · exact h
      · exact fun h => Or.inr ⟨h,hkey⟩
  | delete k =>
    change _ ∈ (c.delete k).entries ↔ Function.update c.get k none key = some value
    rw [mem_delete]
    by_cases hkey : key = k
    · subst hkey
      simp
    · rw [Function.update_of_ne hkey,get_eq_some]
      exact and_iff_left hkey

theorem Content.get_applyAll (c : Content) (l : List Request) :
    (l.foldl Content.apply c).get = updating.applyAll c.get l := by
  induction l generalizing c with
  | nil => rfl
  | cons r l ih =>
    rw [List.foldl_cons,ih,Content.get_apply]
    rfl

/-- A server that carries out the changes of a batch in an order of its own. -/
structure Server where
  order : WriteBatchRequest → List Request
  perm : ∀ r, (order r).Perm r.items

def set (c : Content) (key value : Bytes) : Option DBError × Content :=
  (errEnumToError .unspecified,c.apply (.put ⟨key,value⟩))

def delete (c : Content) (key : Bytes) : Option DBError × Content :=
  (errEnumToError .unspecified,c.apply (.delete key))

/-! ## The batch -/

structure BatchOp where
  key : Bytes
  value : Bytes
  delete : Bool

/-- `size` is kept as in the source, where nothing reads it. -/
structure Batch where
  ops : List BatchOp
  size : ℕ

def newBatch : Batch := ⟨[],0⟩

namespace Batch

def set (b : Batch) (key value : Bytes) : Batch :=
  ⟨b.ops ++ [⟨key,value,false⟩],b.size + key.length + value.length⟩

def delete (b : Batch) (key : Bytes) : Batch :=
  ⟨b.ops ++ [⟨key,[],true⟩],b.size + key.length⟩

def addToRequest (r : WriteBatchRequest) (op : BatchOp) : WriteBatchRequest :=
  if op.delete then { r with deletes := r.deletes ++ [op.key] }
  else { r with puts := r.puts ++ [⟨op.key,op.value⟩] }

def writeLoop : List BatchOp → List Bytes → WriteBatchRequest → WriteBatchRequest
  | [], _, r => r
  | op :: rest, keySet, r =>
    if keySet.contains op.key then writeLoop rest keySet r
    else writeLoop rest (op.key :: keySet) (addToRequest r op)

def request (b : Batch) : WriteBatchRequest := writeLoop b.ops.reverse [] ⟨[],[]⟩

def write (b : Batch) (server : Server) (c : Content) : Option DBError × Content :=
  (errEnumToError .unspecified,(server.order b.request).foldl Content.apply c)

end Batch

def BatchOp.toRequest (op : BatchOp) : Request :=
  if op.delete then .delete op.key else .put ⟨op.key,op.value⟩

theorem BatchOp.toRequest_key (op : BatchOp) : op.toRequest.key = op.key := by
  unfold BatchOp.toRequest
  split <;> rfl

theorem Batch.addToRequest_items (r : WriteBatchRequest) (op : BatchOp) :
    (addToRequest r op).items.Perm (r.items ++ [op.toRequest]) := by
  unfold addToRequest BatchOp.toRequest WriteBatchRequest.items
  by_cases h : op.delete
  · simp [h]
  · simp only [h,Bool.false_eq_true,if_false,List.map_append,List.append_assoc]
    exact (List.perm_append_comm).append_left _

theorem Batch.writeLoop_items (ops : List BatchOp) (keySet : List Bytes) (r : WriteBatchRequest) :
    (writeLoop ops keySet r).items.Perm
      (r.items ++ firstSeen Request.key (ops.map BatchOp.toRequest) keySet) := by
  induction ops generalizing keySet r with
  | nil => simp [writeLoop,firstSeen]
  | cons op ops ih =>
    rw [writeLoop,List.map_cons,firstSeen,BatchOp.toRequest_key]
    by_cases h : op.key ∈ keySet
    · rw [if_pos h,if_pos (List.contains_iff_mem.mpr h)]
      exact ih keySet r
    · rw [if_neg h,if_neg (mt List.contains_iff_mem.mp h)]
      have hop := (addToRequest_items r op).append_right
        (firstSeen Request.key (ops.map BatchOp.toRequest) (op.key :: keySet))
      exact (ih _ _).trans (hop.trans (by simp))

theorem Batch.request_items (b : Batch) :
    b.request.items.Perm (firstSeen Request.key (b.ops.map BatchOp.toRequest).reverse []) := by
  have h := writeLoop_items b.ops.reverse [] ⟨[],[]⟩
  rwa [List.map_reverse] at h

inductive BatchCall where
  | set (key value : Bytes)
  | delete (key : Bytes)

def BatchCall.collect (b : Batch) : BatchCall → Batch
  | .set key value => b.set key value
  | .delete key => b.delete key

/-- The same call made on the database at once. -/
def BatchCall.execute (c : Content) : BatchCall → Content
  | .set key value => (Database.set c key value).2
  | .delete key => (Database.delete c key).2

theorem collect_ops (b : Batch) (calls : List BatchCall) (c : Content) :
    ((calls.foldl BatchCall.collect b).ops.map BatchOp.toRequest).foldl Content.apply c =
      calls.foldl BatchCall.execute ((b.ops.map BatchOp.toRequest).foldl Content.apply c) := by
  induction calls generalizing b with
  | nil => rfl
  | cons call calls ih =>
    rw [List.foldl_cons,List.foldl_cons,ih]
    congr 1
    cases call <;> simp [BatchCall.collect,BatchCall.execute,Batch.set,Batch.delete,
      BatchOp.toRequest,Database.set,Database.delete]

/-- Writing a batch leaves the database as the single operations would have, in whatever
order the server carries out the request, and no key occurs twice in the request. -/
theorem write_eq_execute (server : Server) (c : Content) (calls : List BatchCall) :
    ((calls.foldl BatchCall.collect newBatch).write server c).2 =
        calls.foldl BatchCall.execute c ∧
      ((calls.foldl BatchCall.collect newBatch).request.items.map Request.key).Nodup := by
  have hops := collect_ops newBatch calls c
  generalize calls.foldl BatchCall.collect newBatch = b at hops ⊢
  have hitems := b.request_items
  have hkeys := (firstSeen_keys Request.key (b.ops.map BatchOp.toRequest).reverse []).1
  have horder := (server.perm b.request).trans hitems
  refine ⟨?_,(hitems.map Request.key).nodup_iff.mpr hkeys⟩
  have hexecute : calls.foldl BatchCall.execute c =
      (b.ops.map BatchOp.toRequest).foldl Content.apply c := hops.symm
  rw [hexecute]
  apply Content.ext_get
  rw [Batch.write,Content.get_applyAll,Content.get_applyAll,
    updating.applyAll_perm horder ((horder.map Request.key).nodup_iff.mpr hkeys)]
  funext key
  have hfirst := updating.applyAll_firstSeen (b.ops.map BatchOp.toRequest).reverse [] c.get key
  rwa [if_neg List.not_mem_nil,List.reverse_reverse] at hfirst

end Landslide.Database
