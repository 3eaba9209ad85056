import Landslide.Lib.Exec

/-! # Readers and the writers that undo them

A reader takes a value off the front of an input, a writer appends a value to an output
whose length is limited. A writer undoes a reader if it gives back exactly the bytes that
the reader took, whatever they were. A format whose reader is undone has one encoding for
each value.
-/
namespace Landslide
variable {β α τ γ ε δ : Type}

abbrev Reader (β ε α : Type) := List β → Except ε (α × List β)
abbrev Writer (β δ α : Type) := α → List β → Except δ (List β)

namespace Reader

def fail (e : ε) : Reader β ε α := fun _ => .error e

def map (f : α → τ) (read : Reader β ε α) : Reader β ε τ := fun input => do
  let (a,rest) ← read input
  .ok (f a,rest)

def bind (read : Reader β ε α) (next : α → Reader β ε τ) : Reader β ε τ := fun input => do
  let (a,rest) ← read input
  next a rest

def mapError (f : ε → ε) (read : Reader β ε α) : Reader β ε α := fun input =>
  (read input).mapError f

theorem mapError_eq_ok {f : ε → ε} {read : Reader β ε α} {input : List β} {x : α × List β} :
    read.mapError f input = .ok x ↔ read input = .ok x := by
  unfold mapError
  cases read input with
  | error e => simp [Except.mapError]
  | ok y => rfl

theorem map_eq_ok {f : α → τ} {read : Reader β ε α} {input rest : List β} {b : τ} :
    read.map f input = .ok (b,rest) ↔ ∃ a, read input = .ok (a,rest) ∧ f a = b := by
  constructor
  · intro h
    obtain ⟨⟨a,rest'⟩,ha,h⟩ := bind_eq_ok h
    cases h
    exact ⟨a,ha,rfl⟩
  · rintro ⟨a,ha,rfl⟩
    rw [map,ha]
    rfl

theorem bind_of_ok {read : Reader β ε α} {next : α → Reader β ε τ} {input mid : List β} {a : α}
    (h : read input = .ok (a,mid)) : read.bind next input = next a mid := by
  rw [bind,h]
  rfl

theorem bind_eq_ok {read : Reader β ε α} {next : α → Reader β ε τ} {input rest : List β} {b : τ} :
    read.bind next input = .ok (b,rest) ↔
      ∃ a mid, read input = .ok (a,mid) ∧ next a mid = .ok (b,rest) := by
  constructor
  · intro h
    obtain ⟨⟨a,mid⟩,ha,h⟩ := Landslide.bind_eq_ok h
    exact ⟨a,mid,ha,h⟩
  · rintro ⟨a,mid,ha,h⟩
    rwa [bind_of_ok ha]

theorem map_id (read : Reader β ε α) : read.map (fun a => a) = read := by
  funext input
  unfold map
  cases read input <;> rfl

/-- The second reader accepts all that the first one accepts, with the same result. -/
def LE (read read' : Reader β ε α) : Prop := ∀ input x, read input = .ok x → read' input = .ok x

theorem LE.refl (read : Reader β ε α) : LE read read := fun _ _ h => h

theorem LE.map {read read' : Reader β ε α} (h : LE read read') (f : α → τ) :
    LE (read.map f) (read'.map f) := by
  rintro input ⟨b,rest⟩ hr
  obtain ⟨a,ha,rfl⟩ := map_eq_ok.mp hr
  exact map_eq_ok.mpr ⟨a,h _ _ ha,rfl⟩

theorem LE.bind {read : Reader β ε α} {next next' : α → Reader β ε τ}
    (h : ∀ a, LE (next a) (next' a)) : LE (read.bind next) (read.bind next') := by
  rintro input ⟨b,rest⟩ hr
  obtain ⟨a,mid,ha,hr⟩ := bind_eq_ok.mp hr
  rw [bind_of_ok ha]
  exact h a _ _ hr

end Reader

/-! ## Writers that undo readers -/

def Undoes (limit : ℕ) (write : Writer β δ α) (read : Reader β ε α) : Prop :=
  ∀ input a rest, read input = .ok (a,rest) → ∃ taken, input = taken ++ rest ∧
    ∀ out, out.length + taken.length ≤ limit → write a out = .ok (out ++ taken)

namespace Undoes
variable {limit : ℕ}

theorem fail (write : Writer β δ α) (e : ε) : Undoes limit write (Reader.fail e) :=
  fun _ _ _ h => nomatch h

theorem mapError {write : Writer β δ α} {read : Reader β ε α} (h : Undoes limit write read)
    (f : ε → ε) : Undoes limit write (read.mapError f) :=
  fun input a rest hr => h input a rest (mapError_eq_ok hr)

theorem map {write : Writer β δ α} {write' : Writer β δ τ} {read : Reader β ε α}
    (h : Undoes limit write read) (f : α → τ)
    (hw : ∀ input a rest, read input = .ok (a,rest) → write' (f a) = write a) :
    Undoes limit write' (read.map f) := by
  intro input b rest hr
  obtain ⟨a,ha,rfl⟩ := Reader.map_eq_ok.mp hr
  rw [hw _ _ _ ha]
  exact h _ _ _ ha

/-- What is read first decides how the rest is read. -/
theorem bindMap {write : Writer β δ α} {w : α → Writer β δ τ} {write' : Writer β δ γ}
    {read : Reader β ε α} {readNext : α → Reader β ε τ} (h : Undoes limit write read)
    (hnext : ∀ a, Undoes limit (w a) (readNext a)) (f : α → τ → γ)
    (hw : ∀ input a mid b rest, read input = .ok (a,mid) → readNext a mid = .ok (b,rest) →
      ∀ out, write' (f a b) out = (write a out >>= w a b)) :
    Undoes limit write' (read.bind fun a => (readNext a).map (f a)) := by
  intro input c rest hr
  obtain ⟨a,mid,ha,hr⟩ := Reader.bind_eq_ok.mp hr
  obtain ⟨b,hb,rfl⟩ := Reader.map_eq_ok.mp hr
  obtain ⟨taken₁,hin,hw₁⟩ := h _ _ _ ha
  obtain ⟨taken₂,hmid,hw₂⟩ := hnext a _ _ _ hb
  refine ⟨taken₁ ++ taken₂,by rw [hin,hmid,List.append_assoc],fun out hlen => ?_⟩
  rw [List.length_append] at hlen
  have hfirst := hw₁ out (by omega)
  have hrest := hw₂ (out ++ taken₁) (by rw [List.length_append]; omega)
  rw [hw _ _ _ _ _ ha hb,hfirst,← List.append_assoc,← hrest]
  rfl

theorem bind {write : Writer β δ α} {w : α → Writer β δ τ} {write' : Writer β δ τ}
    {read : Reader β ε α} {readNext : α → Reader β ε τ} (h : Undoes limit write read)
    (hnext : ∀ a, Undoes limit (w a) (readNext a))
    (hw : ∀ input a mid b rest, read input = .ok (a,mid) → readNext a mid = .ok (b,rest) →
      ∀ out, write' b out = (write a out >>= w a b)) :
    Undoes limit write' (read.bind readNext) := by
  have hmap := h.bindMap hnext (fun _ b => b) hw
  simpa only [Reader.map_id] using hmap

end Undoes

/-! ## Repetition -/

def readN (read : Reader β ε α) : ℕ → Reader β ε (List α)
  | 0 => fun input => .ok ([],input)
  | n + 1 => read.bind fun a => (readN read n).map (a :: ·)

def writeAll (write : Writer β δ α) : Writer β δ (List α)
  | [], out => .ok out
  | a :: as, out => do
    let out ← write a out
    writeAll write as out

theorem readN_length {read : Reader β ε α} {n : ℕ} {input rest : List β} {as : List α}
    (h : readN read n input = .ok (as,rest)) : as.length = n := by
  induction n generalizing input as with
  | zero =>
    cases h
    rfl
  | succ n ih =>
    obtain ⟨a,mid,_,h⟩ := Reader.bind_eq_ok.mp h
    obtain ⟨as',has,rfl⟩ := Reader.map_eq_ok.mp h
    rw [List.length_cons,ih has]

theorem Undoes.readN {limit : ℕ} {write : Writer β δ α} {read : Reader β ε α}
    (h : Undoes limit write read) (n : ℕ) :
    Undoes limit (writeAll write) (Landslide.readN read n) := by
  induction n with
  | zero =>
    intro input as rest hr
    cases hr
    exact ⟨[],rfl,fun out _ => by rw [List.append_nil]; rfl⟩
  | succ n ih =>
    exact h.bindMap (fun _ => ih) (fun a as => a :: as) fun _ _ _ _ _ _ _ _ => rfl

/-! ## Sequences of different things -/

def readEach (read : τ → Reader β ε α) : List τ → Reader β ε (List α)
  | [] => fun input => .ok ([],input)
  | t :: ts => (read t).bind fun a => (readEach read ts).map (a :: ·)

/-- `mismatch` is the error for a list that is too long or too short. -/
def writeEach (write : τ → Writer β δ α) (mismatch : δ) : List τ → Writer β δ (List α)
  | [], [], out => .ok out
  | t :: ts, a :: as, out => do
    let out ← write t a out
    writeEach write mismatch ts as out
  | _, _, _ => .error mismatch

theorem readEach_nil_eq_ok {read : τ → Reader β ε α} {input rest : List β} {as : List α} :
    readEach read [] input = .ok (as,rest) ↔ as = [] ∧ input = rest := by
  change Except.ok ([],input) = _ ↔ _
  rw [Except.ok.injEq,Prod.mk.injEq,eq_comm (a := [])]

theorem readEach_cons_eq_ok {read : τ → Reader β ε α} {t : τ} {ts : List τ} {input rest : List β}
    {as : List α} : readEach read (t :: ts) input = .ok (as,rest) ↔
      ∃ a mid as', read t input = .ok (a,mid) ∧ readEach read ts mid = .ok (as',rest) ∧
        a :: as' = as := by
  rw [readEach,Reader.bind_eq_ok]
  simp only [Reader.map_eq_ok]
  constructor
  · rintro ⟨a,mid,ha,as',has,hcons⟩
    exact ⟨a,mid,as',ha,has,hcons⟩
  · rintro ⟨a,mid,as',ha,has,hcons⟩
    exact ⟨a,mid,ha,as',has,hcons⟩

theorem Undoes.readEach {limit : ℕ} {write : τ → Writer β δ α} {read : τ → Reader β ε α}
    (h : ∀ t, Undoes limit (write t) (read t)) (mismatch : δ) (ts : List τ) :
    Undoes limit (writeEach write mismatch ts) (Landslide.readEach read ts) := by
  induction ts with
  | nil =>
    intro input as rest hr
    cases hr
    exact ⟨[],rfl,fun out _ => by rw [List.append_nil]; rfl⟩
  | cons t ts ih =>
    exact (h t).bindMap (fun _ => ih) (fun a as => a :: as) fun _ _ _ _ _ _ _ _ => rfl

theorem Reader.LE.readEach {read read' : τ → Reader β ε α} (h : ∀ t, Reader.LE (read t) (read' t))
    (ts : List τ) : Reader.LE (Landslide.readEach read ts) (Landslide.readEach read' ts) := by
  induction ts with
  | nil => exact Reader.LE.refl _
  | cons t ts ih =>
    rintro input ⟨as,rest⟩ hr
    obtain ⟨a,mid,ha,hr⟩ := Reader.bind_eq_ok.mp hr
    rw [Landslide.readEach,Reader.bind_of_ok (h t _ _ ha)]
    exact ih.map (a :: ·) _ _ hr

theorem readN_eq_readEach (read : Reader β ε α) (n : ℕ) :
    readN read n = readEach (fun _ => read) (List.replicate n ()) := by
  induction n with
  | zero => rfl
  | succ n ih => rw [readN,List.replicate_succ,readEach,ih]

theorem Reader.LE.readN {read read' : Reader β ε α} (h : Reader.LE read read') (n : ℕ) :
    Reader.LE (Landslide.readN read n) (Landslide.readN read' n) := by
  rw [readN_eq_readEach,readN_eq_readEach]
  exact Reader.LE.readEach (fun _ => h) _

/-! ## Values that take up space -/

/-- A reader that refuses a value without any bytes. -/
def readSome (empty : ε) (read : Reader β ε α) : Reader β ε α := fun input => do
  let (a,rest) ← read input
  if rest.length = input.length then .error empty else .ok (a,rest)

/-- A writer that refuses a value without any bytes. -/
def writeSome (empty : δ) (write : Writer β δ α) : Writer β δ α := fun a out => do
  let out' ← write a out
  if out'.length = out.length then .error empty else .ok out'

theorem readSome_eq_ok {empty : ε} {read : Reader β ε α} {input rest : List β} {a : α}
    (h : readSome empty read input = .ok (a,rest)) : read input = .ok (a,rest) := by
  obtain ⟨⟨a',rest'⟩,ha,h⟩ := bind_eq_ok h
  dsimp only at h
  split at h
  · cases h
  · cases h
    exact ha

theorem Undoes.readSome {limit : ℕ} {write : Writer β δ α} {read : Reader β ε α}
    (h : Undoes limit write read) (empty : ε) (empty' : δ) :
    Undoes limit (writeSome empty' write) (Landslide.readSome empty read) := by
  intro input a rest hr
  obtain ⟨⟨a',rest'⟩,ha,hr⟩ := bind_eq_ok hr
  dsimp only at hr
  split at hr
  · cases hr
  · next hne =>
    cases hr
    obtain ⟨taken,rfl,hw⟩ := h _ _ _ ha
    have hpos : (taken.length : ℕ) ≠ 0 := by
      rw [List.length_append] at hne
      omega
    refine ⟨taken,rfl,fun out hlen => ?_⟩
    rw [writeSome,hw out hlen]
    change (if (out ++ taken).length = out.length then _ else _) = _
    rw [if_neg (by rw [List.length_append]; omega)]

theorem Reader.LE.readSome {read read' : Reader β ε α} (h : Reader.LE read read') (empty : ε) :
    Reader.LE (Landslide.readSome empty read) (Landslide.readSome empty read') := by
  intro input x hr
  obtain ⟨⟨a,rest⟩,ha,hr⟩ := Landslide.bind_eq_ok hr
  rw [Landslide.readSome,h _ _ ha]
  exact hr

/-! ## Readers that tell inputs apart -/

/-- Results that are the same were read from the same bytes. -/
def Separates (S : α → α → Prop) (read : Reader β ε α) : Prop :=
  ∀ input a rest input' a' rest', read input = .ok (a,rest) → read input' = .ok (a',rest') →
    S a a' → ∃ taken, input = taken ++ rest ∧ input' = taken ++ rest'

theorem Undoes.separates {write : ℕ → Writer β δ α} {read : Reader β ε α}
    (h : ∀ limit, Undoes limit (write limit) read) : Separates (· = ·) read := by
  rintro input a rest input' _ rest' hr hr' rfl
  obtain ⟨taken,rfl,hw⟩ := h (input.length + input'.length) _ _ _ hr
  obtain ⟨taken',rfl,hw'⟩ := h ((taken ++ rest).length + input'.length) _ _ _ hr'
  simp only [List.length_append] at hw hw'
  have hfirst := hw [] (by rw [List.length_nil]; omega)
  rw [hw' [] (by rw [List.length_nil]; omega)] at hfirst
  exact ⟨taken,rfl,by rw [List.append_cancel_left (Except.ok.inj hfirst)]⟩

namespace Separates
variable {S : α → α → Prop} {T : τ → τ → Prop}

theorem fail (e : ε) : Separates S (Reader.fail e : Reader β ε α) :=
  fun _ _ _ _ _ _ h => nomatch h

theorem mapError {read : Reader β ε α} (h : Separates S read) (f : ε → ε) :
    Separates S (read.mapError f) :=
  fun _ _ _ _ _ _ hr hr' => h _ _ _ _ _ _ (mapError_eq_ok hr) (mapError_eq_ok hr')

theorem map {read : Reader β ε α} (h : Separates S read) {f : α → τ}
    (hf : ∀ input a rest input' a' rest', read input = .ok (a,rest) →
      read input' = .ok (a',rest') → T (f a) (f a') → S a a') : Separates T (read.map f) := by
  intro input b rest input' b' rest' hr hr' hsame
  obtain ⟨a,ha,rfl⟩ := Reader.map_eq_ok.mp hr
  obtain ⟨a',ha',rfl⟩ := Reader.map_eq_ok.mp hr'
  exact h _ _ _ _ _ _ ha ha' (hf _ _ _ _ _ _ ha ha' hsame)

theorem bind {read : Reader β ε α} {next : α → Reader β ε τ} (h : Separates (· = ·) read)
    (hnext : ∀ a, Separates T (next a))
    (hhead : ∀ a a' mid mid' b b' rest rest', next a mid = .ok (b,rest) →
      next a' mid' = .ok (b',rest') → T b b' → a = a') : Separates T (read.bind next) := by
  intro input b rest input' b' rest' hr hr' hsame
  obtain ⟨a,mid,ha,hb⟩ := Reader.bind_eq_ok.mp hr
  obtain ⟨a',mid',ha',hb'⟩ := Reader.bind_eq_ok.mp hr'
  obtain rfl := hhead _ _ _ _ _ _ _ _ hb hb' hsame
  obtain ⟨taken₁,rfl,rfl⟩ := h _ _ _ _ _ _ ha ha' rfl
  obtain ⟨taken₂,rfl,rfl⟩ := hnext a _ _ _ _ _ _ hb hb' hsame
  exact ⟨taken₁ ++ taken₂,(List.append_assoc ..).symm,(List.append_assoc ..).symm⟩

theorem readEach {read : τ → Reader β ε α} (h : ∀ t, Separates S (read t)) (ts : List τ) :
    Separates (List.Forall₂ S) (Landslide.readEach read ts) := by
  induction ts with
  | nil =>
    intro input as rest input' as' rest' hr hr' _
    cases hr
    cases hr'
    exact ⟨[],rfl,rfl⟩
  | cons t ts ih =>
    intro input as rest input' as' rest' hr hr' hsame
    obtain ⟨a,mid,ha,hr⟩ := Reader.bind_eq_ok.mp hr
    obtain ⟨a',mid',ha',hr'⟩ := Reader.bind_eq_ok.mp hr'
    obtain ⟨as,has,rfl⟩ := Reader.map_eq_ok.mp hr
    obtain ⟨as',has',rfl⟩ := Reader.map_eq_ok.mp hr'
    obtain ⟨hhead,htail⟩ := List.forall₂_cons.mp hsame
    obtain ⟨taken₁,rfl,rfl⟩ := h t _ _ _ _ _ _ ha ha' hhead
    obtain ⟨taken₂,rfl,rfl⟩ := ih _ _ _ _ _ _ has has' htail
    exact ⟨taken₁ ++ taken₂,(List.append_assoc ..).symm,(List.append_assoc ..).symm⟩

theorem readN {read : Reader β ε α} (h : Separates S read) (n : ℕ) :
    Separates (List.Forall₂ S) (Landslide.readN read n) := by
  rw [readN_eq_readEach]
  exact readEach (fun _ => h) _

theorem readSome {read : Reader β ε α} (h : Separates S read) (empty : ε) :
    Separates S (Landslide.readSome empty read) := by
  intro input a rest input' a' rest' hr hr'
  exact h _ _ _ _ _ _ (readSome_eq_ok hr) (readSome_eq_ok hr')

end Separates

/-! ## Readers that restore what was written -/

/-- The reader takes the bytes of the value, and gives the value back up to `S`. -/
def Restores (S : α → α → Prop) (write : Writer β δ α) (read : Reader β ε α) (a : α) : Prop :=
  ∀ out out', write a out = .ok out' → ∃ taken, out' = out ++ taken ∧
    ∃ a', S a a' ∧ ∀ rest, read (taken ++ rest) = .ok (a',rest)

namespace Restores
variable {S : α → α → Prop} {T : τ → τ → Prop} {write : Writer β δ α} {read : Reader β ε α}

theorem mapError {a : α} (h : Restores S write read a) (f : ε → ε) :
    Restores S write (read.mapError f) a := by
  intro out out' hw
  obtain ⟨taken,hout,a',hsame,hread⟩ := h out out' hw
  exact ⟨taken,hout,a',hsame,fun rest => Reader.mapError_eq_ok.mpr (hread rest)⟩

theorem map {a : α} (h : Restores S write read a) {write' : Writer β δ τ} (f : α → τ)
    (hw : ∀ out, write' (f a) out = write a out) (hf : ∀ a', S a a' → T (f a) (f a')) :
    Restores T write' (read.map f) (f a) := by
  intro out out' hout
  obtain ⟨taken,hout,a',hsame,hread⟩ := h out out' (hw out ▸ hout)
  exact ⟨taken,hout,f a',hf a' hsame,fun rest => Reader.map_eq_ok.mpr ⟨a',hread rest,rfl⟩⟩

theorem readSome {a : α} (h : Restores S write read a) (empty : ε) (empty' : δ) :
    Restores S (writeSome empty' write) (Landslide.readSome empty read) a := by
  intro out out' hw
  obtain ⟨mid,ha,hw⟩ := bind_eq_ok hw
  split at hw
  · cases hw
  · next hne =>
    cases hw
    obtain ⟨taken,rfl,a',hsame,hread⟩ := h out _ ha
    refine ⟨taken,rfl,a',hsame,fun rest => ?_⟩
    have hlength : ¬rest.length = (taken ++ rest).length := by
      simp only [List.length_append] at hne ⊢
      omega
    rw [Landslide.readSome,hread]
    exact if_neg hlength

theorem readEach {write : τ → Writer β δ α} {read : τ → Reader β ε α} {ts : List τ} {as : List α}
    (h : List.Forall₂ (fun t a => Restores S (write t) (read t) a) ts as) (mismatch : δ) :
    Restores (List.Forall₂ S) (writeEach write mismatch ts) (Landslide.readEach read ts) as := by
  induction h with
  | nil =>
    intro out out' hw
    cases hw
    exact ⟨[],by simp,[],.nil,fun rest => rfl⟩
  | cons hhead _ ih =>
    intro out out' hw
    obtain ⟨mid,ha,hw⟩ := bind_eq_ok hw
    obtain ⟨taken,rfl,a',hsame,hread⟩ := hhead _ _ ha
    obtain ⟨taken',rfl,as',hsames,hreads⟩ := ih _ _ hw
    refine ⟨taken ++ taken',by simp,a' :: as',.cons hsame hsames,fun rest => ?_⟩
    exact readEach_cons_eq_ok.mpr ⟨a',taken' ++ rest,as',by simp [hread],hreads rest,rfl⟩

theorem readN {as : List α} (h : ∀ a ∈ as, Restores S write read a) :
    Restores (List.Forall₂ S) (writeAll write) (Landslide.readN read as.length) as := by
  induction as with
  | nil =>
    intro out out' hw
    cases hw
    exact ⟨[],by simp,[],.nil,fun rest => rfl⟩
  | cons a as ih =>
    intro out out' hw
    obtain ⟨mid,ha,hw⟩ := bind_eq_ok hw
    obtain ⟨taken,rfl,a',hsame,hread⟩ := h a List.mem_cons_self _ _ ha
    obtain ⟨taken',rfl,as',hsames,hreads⟩ := ih (fun b hb => h b (List.mem_cons_of_mem _ hb)) _ _ hw
    refine ⟨taken ++ taken',by simp,a' :: as',.cons hsame hsames,fun rest => ?_⟩
    refine Reader.bind_eq_ok.mpr ⟨a',taken' ++ rest,by simp [hread],?_⟩
    exact Reader.map_eq_ok.mpr ⟨as',hreads rest,rfl⟩

end Restores

/-! ## Writers only append -/

def Writer.Appends (write : Writer β δ α) : Prop :=
  ∀ a out out', write a out = .ok out' → out <+: out'

namespace Writer.Appends

theorem writeAll {write : Writer β δ α} (h : Writer.Appends write) :
    Writer.Appends (Landslide.writeAll write) := by
  intro as
  induction as with
  | nil =>
    rintro out out' hw
    cases hw
    exact List.prefix_rfl
  | cons a as ih =>
    intro out out' hw
    obtain ⟨mid,ha,hw⟩ := bind_eq_ok hw
    exact (h _ _ _ ha).trans (ih _ _ hw)

theorem writeEach {write : τ → Writer β δ α} (h : ∀ t, Writer.Appends (write t)) (mismatch : δ)
    (ts : List τ) : Writer.Appends (Landslide.writeEach write mismatch ts) := by
  induction ts with
  | nil =>
    intro as out out' hw
    cases as <;> cases hw
    exact List.prefix_rfl
  | cons t ts ih =>
    intro as out out' hw
    cases as with
    | nil => cases hw
    | cons a as =>
      obtain ⟨mid,ha,hw⟩ := bind_eq_ok hw
      exact (h t _ _ _ ha).trans (ih _ _ _ hw)

theorem writeSome {write : Writer β δ α} (h : Writer.Appends write) (empty : δ) :
    Writer.Appends (Landslide.writeSome empty write) := by
  intro a out out' hw
  obtain ⟨mid,ha,hw⟩ := bind_eq_ok hw
  split at hw
  · cases hw
  · cases hw
    exact h _ _ _ ha

end Writer.Appends
end Landslide
