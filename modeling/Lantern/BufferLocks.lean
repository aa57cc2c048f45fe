import Lantern.ExtraDirtied
import Lantern.LockTable
import Lantern.SystemRuns

set_option autoImplicit false

/-!
# Buffer locks of inserts, scans and bulk deletes

Every `LockBuffer` call is a wait that the lock table ends; the code goes on after it.
usearch asks for nodes through the two retrievers whenever it runs. A backend may hold
open scans while it does something else: between two calls they hold no lock. An error
releases all locks of its backend.
-/
namespace Lantern.BufferLocks
open LockTable SystemRuns
open PageLayout (InvalidBlockNumber)

structure InsertCtx where
  dirtied : List ℕ
  lastDataBlock : Option ℕ
  placed : Bool

inductive Proc where
  | idle
  | insertHeader
  | insert (c : InsertCtx)
  | insertNode (c : InsertCtx) (b : ℕ)
  | insertNodeMut (c : InsertCtx) (b : ℕ)
  | lastLocked (c : InsertCtx) (b : ℕ)
  | lastPage (c : InsertCtx)
  | newLocked (c : InsertCtx) (b : ℕ)
  | releaseAll (bs : List ℕ)
  | scanHeader
  | scanHeaderNode (b : ℕ)
  | scanNode (b : ℕ)
  | deleteHeader
  | delete (blockno : ℕ) (last : Option ℕ)
  | deleteBlock (blockno : ℕ) (last : Option ℕ)

abbrev Backend := Owner ℕ Proc

structure Index where
  blocks : ℕ
  lastDataBlock : Option ℕ

/-- `advance` goes on where nothing is left to choose but whether the tuple fits. -/
inductive Action where
  | grant
  | insert
  | beginScan
  | bulkDelete
  | retriever (b : ℕ)
  | retrieverMut (b : ℕ)
  | prepareIndexTuple
  | finish
  | advance (fits : Bool)
  | error

/-- `ReadBufferExtended` and `LockBuffer`; a block past the end is an error. -/
def lockBuffer (idx : Index) (o : Backend) (b : ℕ) (mode : Mode) (next : Proc) :
    Option (Index × Backend) :=
  if b < idx.blocks then some (idx, { o with proc := next, waiting := some ⟨b, mode⟩ }) else none

def lockNew (idx : Index) (o : Backend) (c : InsertCtx) : Option (Index × Backend) :=
  if idx.blocks < InvalidBlockNumber then
    some ({ idx with blocks := idx.blocks + 1 },
      { o with
        proc := .newLocked { c with lastDataBlock := some idx.blocks } idx.blocks
        waiting := some ⟨idx.blocks, .exclusive⟩ })
  else none

/-- A node of a page that the insert has registered needs no lock. -/
def insertRetrieve (idx : Index) (o : Backend) (c : InsertCtx) (b : ℕ) (mode : Mode) (next : Proc) :
    Option (Index × Backend) :=
  if b ∈ c.dirtied then some (idx, o) else lockBuffer idx o b mode next

def prepare (idx : Index) (o : Backend) (c : InsertCtx) : Option (Index × Backend) :=
  match c.lastDataBlock with
  | none => lockNew idx o c
  | some last =>
    if last ∈ c.dirtied then some (idx, { o with proc := .lastPage c })
    else lockBuffer idx o last .exclusive (.lastLocked c last)

def InsertCtx.add (c : InsertCtx) (b : ℕ) : InsertCtx := { c with dirtied := c.dirtied ++ [b] }

def goto (idx : Index) (o : Backend) (next : Proc) : Option (Index × Backend) :=
  some (idx, { o with proc := next })

def unlock (idx : Index) (o : Backend) (b : ℕ) (next : Proc) : Option (Index × Backend) :=
  some (idx, o.release b next)

def advance (idx : Index) (o : Backend) (fits : Bool) : Option (Index × Backend) :=
  match o.proc with
  | .insertHeader => goto idx o (.insert ⟨[], idx.lastDataBlock, false⟩)
  | .insertNode c b => unlock idx o b (.insert c)
  | .insertNodeMut c b => goto idx o (.insert (c.add b))
  | .lastLocked c b => goto idx o (.lastPage (c.add b))
  | .lastPage c => if fits then goto idx o (.insert { c with placed := true }) else lockNew idx o c
  | .newLocked c b => goto idx o (.insert { c.add b with placed := true })
  | .releaseAll (b :: bs) => unlock idx o b (.releaseAll bs)
  | .releaseAll [] => unlock idx o 0 .idle
  | .scanHeaderNode b => unlock idx o b .scanHeader
  | .scanHeader => unlock idx o 0 .idle
  | .scanNode b => unlock idx o b .idle
  | .deleteHeader => unlock idx o 0 (.delete 1 idx.lastDataBlock)
  | .delete blockno last =>
    if blockno ≤ last.getD InvalidBlockNumber then
      lockBuffer idx o blockno .exclusive (.deleteBlock blockno last)
    else goto idx o .idle
  | .deleteBlock blockno last => unlock idx o blockno (.delete (blockno + 1) last)
  | _ => none

def act (idx : Index) (o : Backend) (a : Action) : Option (Index × Backend) :=
  match o.proc, a with
  | .idle, .insert => lockBuffer idx o 0 .exclusive .insertHeader
  | .idle, .beginScan => lockBuffer idx o 0 .share .scanHeader
  | .idle, .bulkDelete => lockBuffer idx o 0 .exclusive .deleteHeader
  | .idle, .retriever b => lockBuffer idx o b .share (.scanNode b)
  | .scanHeader, .retriever b => lockBuffer idx o b .share (.scanHeaderNode b)
  | .insert c, .retriever b => insertRetrieve idx o c b .share (.insertNode c b)
  | .insert c, .retrieverMut b => insertRetrieve idx o c b .exclusive (.insertNodeMut c b)
  | .insert c, .prepareIndexTuple => if c.placed then none else prepare idx o c
  | .insert c, .finish =>
    if c.placed then goto { idx with lastDataBlock := c.lastDataBlock } o (.releaseAll c.dirtied)
      else none
  | _, .advance fits => advance idx o fits
  | _, .error => some (idx, ⟨.idle, [], none⟩)
  | _, _ => none

structure State (P : Type) where
  index : Index
  backends : P → Backend

section
variable {P : Type} [Fintype P] [DecidableEq P]

def step (s : State P) : P × Action → Option (State P)
  | (p, .grant) => (grant s.backends p).map fun bs => { s with backends := bs }
  | (p, a) =>
    if (s.backends p).waiting = none then
      (act s.index (s.backends p) a).map fun (idx, o) => ⟨idx, Function.update s.backends p o⟩
    else none

def DataBlocks : Action → Prop
  | .retriever b => b ≠ 0
  | .retrieverMut b => b ≠ 0
  | _ => True

def Index.Valid (idx : Index) : Prop :=
  1 ≤ idx.blocks ∧ ∀ last, idx.lastDataBlock = some last → last ≠ 0 ∧ last < idx.blocks

def Starts (s : State P) : Prop := s.index.Valid ∧ ∀ p, s.backends p = ⟨.idle, [], none⟩

def backends : System (State P) := actionSystem Starts step fun _ a => DataBlocks a.2

end

def exclusive (b : ℕ) : Lock ℕ := ⟨b, .exclusive⟩

def insertLocks (bs : List ℕ) : List (Lock ℕ) := (0 :: bs).map exclusive

def locksAt : Proc → List (Lock ℕ)
  | .idle => []
  | .insertHeader => insertLocks []
  | .insert c => insertLocks c.dirtied
  | .insertNode c b => insertLocks c.dirtied ++ [⟨b, .share⟩]
  | .insertNodeMut c b => insertLocks (c.dirtied ++ [b])
  | .lastLocked c b => insertLocks (c.dirtied ++ [b])
  | .lastPage c => insertLocks c.dirtied
  | .newLocked c b => insertLocks (c.dirtied ++ [b])
  | .releaseAll bs => insertLocks bs
  | .scanHeader => [⟨0, .share⟩]
  | .scanHeaderNode b => [⟨0, .share⟩, ⟨b, .share⟩]
  | .scanNode b => [⟨b, .share⟩]
  | .deleteHeader => [⟨0, .exclusive⟩]
  | .delete _ _ => []
  | .deleteBlock b _ => [⟨b, .exclusive⟩]

/-- Different data blocks of a relation with `n` blocks. -/
def Blocks (n : ℕ) (bs : List ℕ) : Prop := bs.Nodup ∧ ∀ b ∈ bs, b ≠ 0 ∧ b < n

def LastIn (n : ℕ) (last : Option ℕ) : Prop := ∀ b, last = some b → b ≠ 0 ∧ b < n

def ProcValid (n : ℕ) : Proc → Prop
  | .insert c => Blocks n c.dirtied ∧ LastIn n c.lastDataBlock
  | .insertNode c b => Blocks n (c.dirtied ++ [b]) ∧ LastIn n c.lastDataBlock
  | .insertNodeMut c b => Blocks n (c.dirtied ++ [b]) ∧ LastIn n c.lastDataBlock
  | .lastLocked c b => Blocks n (c.dirtied ++ [b]) ∧ LastIn n c.lastDataBlock
  | .lastPage c => Blocks n c.dirtied ∧ LastIn n c.lastDataBlock
  | .newLocked c b => Blocks n (c.dirtied ++ [b]) ∧ LastIn n c.lastDataBlock
  | .releaseAll bs => Blocks n bs
  | .scanHeaderNode b => b ≠ 0
  | .delete b _ => b ≠ 0
  | .deleteBlock b _ => b ≠ 0
  | _ => True

/-- The lock table agrees with the point the backend has reached. -/
structure Follows (n : ℕ) (o : Backend) : Prop where
  locks : o.held ++ o.waiting.toList = locksAt o.proc
  valid : ProcValid n o.proc

theorem Blocks.mono {n m : ℕ} {bs : List ℕ} (h : Blocks n bs) (hle : n ≤ m) : Blocks m bs :=
  ⟨h.1, fun b hb => ⟨(h.2 b hb).1, lt_of_lt_of_le (h.2 b hb).2 hle⟩⟩

theorem LastIn.mono {n m : ℕ} {last : Option ℕ} (h : LastIn n last) (hle : n ≤ m) : LastIn m last :=
  fun b hb => ⟨(h b hb).1, lt_of_lt_of_le (h b hb).2 hle⟩

theorem ProcValid.mono {n m : ℕ} {proc : Proc} (h : ProcValid n proc) (hle : n ≤ m) :
    ProcValid m proc := by
  cases proc with
  | insert | insertNode | insertNodeMut | lastLocked | lastPage | newLocked =>
    exact ⟨h.1.mono hle, h.2.mono hle⟩
  | releaseAll => exact Blocks.mono h hle
  | scanHeaderNode | delete | deleteBlock => exact h
  | idle | insertHeader | scanHeader | scanNode | deleteHeader => trivial

theorem Blocks.concat {n : ℕ} {bs : List ℕ} (h : Blocks n bs) {b : ℕ} (hb : b ∉ bs) (h0 : b ≠ 0)
    (hlt : b < n) :
    Blocks n (bs ++ [b]) := by
  refine ⟨ExtraDirtied.nodup_concat h.1 hb, fun c hc => ?_⟩
  rcases List.mem_append.mp hc with hc | hc
  · exact h.2 c hc
  · rw [List.mem_singleton.mp hc]
    exact ⟨h0, hlt⟩

theorem insertLocks_concat (bs : List ℕ) (b : ℕ) :
    insertLocks (bs ++ [b]) = insertLocks bs ++ [exclusive b] := by
  simp [insertLocks]

structure Keeps (idx : Index) (o : Backend) (idx' : Index) (o' : Backend) : Prop where
  follows : Follows idx'.blocks o'
  valid : idx'.Valid
  grows : idx.blocks ≤ idx'.blocks
  held : ∀ l ∈ o'.held, l ∈ o.held

section Step
variable {idx idx' : Index} {o o' : Backend}

variable {bs : List ℕ} {c : InsertCtx} {b n : ℕ}

theorem Follows.held_eq (h : Follows n o) (hw : o.waiting = none) : o.held = locksAt o.proc := by
  rw [← h.locks, hw]
  simp

theorem Follows.goto (h : Follows idx.blocks o) (hidx : idx'.Valid)
    (hle : idx.blocks ≤ idx'.blocks) {next : Proc} (hlocks : locksAt next = locksAt o.proc)
    (hvalid : ProcValid idx'.blocks next) : Keeps idx o idx' { o with proc := next } where
  follows := ⟨h.locks.trans hlocks.symm, hvalid⟩
  valid := hidx
  grows := hle
  held := fun _ hl => hl

theorem Follows.wait (h : Follows idx.blocks o) (hw : o.waiting = none) (hidx : idx'.Valid)
    (hle : idx.blocks ≤ idx'.blocks) {next : Proc} {l : Lock ℕ}
    (hlocks : locksAt next = locksAt o.proc ++ [l]) (hvalid : ProcValid idx'.blocks next) :
    Keeps idx o idx' { o with proc := next, waiting := some l } where
  follows := ⟨by rw [hlocks, ← h.held_eq hw]; rfl, hvalid⟩
  valid := hidx
  grows := hle
  held := fun _ hl => hl

theorem Follows.lockBuffer (h : Follows idx.blocks o) (hw : o.waiting = none) (hidx : idx.Valid)
    {next : Proc} {mode : Mode} (hstep : lockBuffer idx o b mode next = some (idx', o'))
    (hlocks : locksAt next = locksAt o.proc ++ [⟨b, mode⟩])
    (hvalid : b < idx.blocks → ProcValid idx.blocks next) : Keeps idx o idx' o' := by
  unfold BufferLocks.lockBuffer at hstep
  split at hstep
  · rename_i hb
    cases hstep
    exact h.wait hw hidx (le_refl _) hlocks (hvalid hb)
  · cases hstep

theorem Follows.unlock (h : Follows idx.blocks o) (hw : o.waiting = none) (hidx : idx.Valid)
    {next : Proc} (hlocks : (locksAt o.proc).filter (fun l => l.resource ≠ b) = locksAt next)
    (hvalid : ProcValid idx.blocks next) : Keeps idx o idx (o.release b next) where
  follows := by
    refine ⟨?_, hvalid⟩
    simp only [Owner.release, hw, Option.toList_none, List.append_nil, h.held_eq hw]
    exact hlocks
  valid := hidx
  grows := le_refl _
  held := release_held o b next

theorem Follows.lockNew (h : Follows idx.blocks o) (hw : o.waiting = none) (hidx : idx.Valid)
    (hlocks : locksAt o.proc = insertLocks c.dirtied) (hblocks : Blocks idx.blocks c.dirtied)
    (hstep : lockNew idx o c = some (idx', o')) : Keeps idx o idx' o' := by
  unfold BufferLocks.lockNew at hstep
  split at hstep
  · cases hstep
    have hle : idx.blocks ≤ idx.blocks + 1 := Nat.le_succ _
    have hpos := hidx.1
    have hnew : idx.blocks ∉ c.dirtied := fun hm => lt_irrefl _ (hblocks.2 _ hm).2
    refine h.wait hw ?_ hle ?_ ?_
    · exact ⟨by simp only; omega, LastIn.mono hidx.2 hle⟩
    · rw [hlocks, locksAt, insertLocks_concat]
      rfl
    · refine ⟨(hblocks.mono hle).concat hnew (by omega) (Nat.lt_succ_self _), fun b hb => ?_⟩
      cases hb
      exact ⟨by omega, Nat.lt_succ_self _⟩
  · cases hstep

theorem Follows.insertRetrieve (h : Follows idx.blocks o) (hw : o.waiting = none) (hidx : idx.Valid)
    {mode : Mode} {next : Proc} (hstep : insertRetrieve idx o c b mode next = some (idx', o'))
    (hlocks : locksAt next = locksAt o.proc ++ [⟨b, mode⟩])
    (hvalid : b ∉ c.dirtied → b < idx.blocks → ProcValid idx.blocks next) :
    Keeps idx o idx' o' := by
  unfold BufferLocks.insertRetrieve at hstep
  split at hstep
  · cases hstep
    exact ⟨h, hidx, le_refl _, fun _ hl => hl⟩
  · rename_i hb
    exact h.lockBuffer hw hidx hstep hlocks (hvalid hb)

theorem Follows.prepare (h : Follows idx.blocks o) (hw : o.waiting = none) (hidx : idx.Valid)
    (hproc : o.proc = .insert c) (hstep : prepare idx o c = some (idx', o')) :
    Keeps idx o idx' o' := by
  have hlocks : locksAt o.proc = insertLocks c.dirtied := by rw [hproc, locksAt]
  have hvalid := h.valid
  rw [hproc] at hvalid
  obtain ⟨hblocks, hlast⟩ := hvalid
  unfold BufferLocks.prepare at hstep
  split at hstep
  · exact h.lockNew hw hidx hlocks hblocks hstep
  · rename_i last hl
    split at hstep
    · cases hstep
      have hvalid : ProcValid idx.blocks (.lastPage c) := ⟨hblocks, hlast⟩
      exact h.goto hidx (le_refl _) (by rw [hlocks, locksAt]) hvalid
    · rename_i hb
      refine h.lockBuffer hw hidx hstep ?_ fun hlt =>
        ⟨hblocks.concat hb (hlast last hl).1 hlt, hlast⟩
      rw [hlocks]
      exact insertLocks_concat c.dirtied last

theorem release_last (h : Blocks n (bs ++ [b])) (mode : Mode) :
    (insertLocks bs ++ [(⟨b, mode⟩ : Lock ℕ)]).filter
    (fun l => l.resource ≠ b) = insertLocks bs := by
  obtain ⟨hnodup, hblocks⟩ := h
  refine @filter_concat_self ℕ _ _ ⟨b, mode⟩ ?_
  have hb : b ∉ bs :=
    fun hm => (List.nodup_append.mp hnodup).2.2 b hm b (List.mem_singleton_self b) rfl
  have h0 := (hblocks b (by simp)).1
  simp [insertLocks, exclusive, Function.comp_def, hb, h0]

theorem release_first (h : Blocks n (b :: bs)) :
    (insertLocks (b :: bs)).filter (fun l => l.resource ≠ b) = insertLocks bs := by
  obtain ⟨hnodup, hblocks⟩ := h
  have hb : b ∉ bs := (List.nodup_cons.mp hnodup).1
  have h0 := (hblocks b List.mem_cons_self).1
  have hrest : (bs.map exclusive).filter (fun l => l.resource ≠ b) = bs.map exclusive := by
    rw [List.filter_eq_self]
    intro l hl
    obtain ⟨c, hc, rfl⟩ := List.mem_map.mp hl
    have hne : c ≠ b := fun he => hb (he ▸ hc)
    exact decide_eq_true hne
  simp only [insertLocks, List.map_cons, List.filter_cons]
  rw [hrest]
  simp [exclusive, h0.symm]

theorem Blocks.tail (h : Blocks n (b :: bs)) : Blocks n bs :=
  ⟨(List.nodup_cons.mp h.1).2, fun c hc => h.2 c (List.mem_cons_of_mem _ hc)⟩

theorem Blocks.init (h : Blocks n (bs ++ [b])) : Blocks n bs :=
  ⟨(List.nodup_append.mp h.1).1, fun c hc => h.2 c (List.mem_append_left _ hc)⟩

theorem Follows.advance (h : Follows idx.blocks o) (hw : o.waiting = none)
    (hidx : idx.Valid) {fits : Bool} (hstep : advance idx o fits = some (idx', o')) :
    Keeps idx o idx' o' := by
  have hv := h.valid
  have hle := le_refl idx.blocks
  unfold BufferLocks.advance at hstep
  cases hproc : o.proc with
  | insertHeader =>
    simp only [hproc] at hstep
    cases hstep
    exact h.goto hidx hle (by rw [hproc]; rfl) ⟨⟨List.nodup_nil, by simp⟩, hidx.2⟩
  | insertNode c b =>
    simp only [hproc] at hstep
    cases hstep
    rw [hproc] at hv
    exact h.unlock hw hidx (by rw [hproc]; exact release_last hv.1 .share) ⟨hv.1.init, hv.2⟩
  | insertNodeMut c b | lastLocked c b | newLocked c b =>
    simp only [hproc] at hstep
    cases hstep
    rw [hproc] at hv
    exact h.goto hidx hle (by rw [hproc]; rfl) hv
  | lastPage c =>
    simp only [hproc] at hstep
    rw [hproc] at hv
    split at hstep
    · cases hstep
      exact h.goto hidx hle (by rw [hproc]; rfl) hv
    · exact h.lockNew hw hidx (by rw [hproc]; rfl) hv.1 hstep
  | releaseAll bs =>
    rw [hproc] at hv
    cases bs with
    | nil =>
      simp only [hproc] at hstep
      cases hstep
      exact h.unlock hw hidx (by rw [hproc]; rfl) trivial
    | cons b bs =>
      simp only [hproc] at hstep
      cases hstep
      exact h.unlock hw hidx (by rw [hproc]; exact release_first hv) (Blocks.tail hv)
  | scanHeaderNode b =>
    simp only [hproc] at hstep
    cases hstep
    rw [hproc] at hv
    refine h.unlock hw hidx ?_ trivial
    rw [hproc]
    exact @filter_concat_self ℕ _ [⟨0, .share⟩] ⟨b, .share⟩ (by simpa [ProcValid] using hv)
  | scanHeader | deleteHeader =>
    simp only [hproc] at hstep
    cases hstep
    exact h.unlock hw hidx (by rw [hproc]; rfl) (by first | trivial | exact Nat.one_ne_zero)
  | scanNode b =>
    simp only [hproc] at hstep
    cases hstep
    exact h.unlock hw hidx (by rw [hproc]; simp [locksAt]) trivial
  | delete blockno last =>
    simp only [hproc] at hstep
    rw [hproc] at hv
    split at hstep
    · exact h.lockBuffer hw hidx hstep (by rw [hproc]; rfl) fun _ => hv
    · cases hstep
      exact h.goto hidx hle (by rw [hproc]; rfl) trivial
  | deleteBlock blockno last =>
    simp only [hproc] at hstep
    cases hstep
    exact h.unlock hw hidx (by rw [hproc]; simp [locksAt]) (Nat.succ_ne_zero _)
  | idle | insert c => simp [hproc] at hstep

theorem Follows.act (h : Follows idx.blocks o) (hw : o.waiting = none)
    (hidx : idx.Valid) {a : Action} (ha : DataBlocks a) (hstep : act idx o a = some (idx', o')) :
    Keeps idx o idx' o' := by
  have hv := h.valid
  unfold BufferLocks.act at hstep
  split at hstep
  case h_1 hproc | h_2 hproc | h_3 hproc | h_4 hproc =>
    exact h.lockBuffer hw hidx hstep (by rw [hproc]; rfl) fun _ => trivial
  case h_5 hproc => exact h.lockBuffer hw hidx hstep (by rw [hproc]; rfl) fun _ => ha
  case h_6 c b hproc =>
    rw [hproc] at hv
    exact h.insertRetrieve hw hidx hstep (by rw [hproc]; rfl) fun hb hlt =>
      ⟨hv.1.concat hb ha hlt, hv.2⟩
  case h_7 c b hproc =>
    rw [hproc] at hv
    refine h.insertRetrieve hw hidx hstep ?_ fun hb hlt => ⟨hv.1.concat hb ha hlt, hv.2⟩
    rw [hproc]
    exact insertLocks_concat c.dirtied b
  case h_8 c hproc =>
    split at hstep
    · cases hstep
    · exact h.prepare hw hidx hproc hstep
  case h_9 c hproc =>
    rw [hproc] at hv
    split at hstep
    · cases hstep
      have hidx' : Index.Valid { idx with lastDataBlock := c.lastDataBlock } := ⟨hidx.1, hv.2⟩
      exact h.goto hidx' (le_refl _) (by rw [hproc]; rfl) hv.1
    · cases hstep
  case h_10 => exact h.advance hw hidx hstep
  case h_11 =>
    cases hstep
    exact ⟨⟨rfl, trivial⟩, hidx, le_refl _, fun l hl => absurd hl List.not_mem_nil⟩
  case h_12 => cases hstep

end Step

section Runs
variable {P : Type}

theorem locksAt_nodup {n : ℕ} {proc : Proc} (h : ProcValid n proc) :
    ((locksAt proc).map Lock.resource).Nodup := by
  have hinsert : ∀ {bs}, Blocks n bs → ((insertLocks bs).map Lock.resource).Nodup := by
    intro bs hbs
    have hmap : (insertLocks bs).map Lock.resource = 0 :: bs := by
      simp [insertLocks, exclusive, Function.comp_def]
    rw [hmap, List.nodup_cons]
    exact ⟨fun hm => (hbs.2 0 hm).1 rfl, hbs.1⟩
  cases proc with
  | insert c | lastPage c | insertNodeMut c b | lastLocked c b | newLocked c b => exact hinsert h.1
  | insertNode c b =>
    have := hinsert h.1
    rw [insertLocks_concat] at this
    simpa [locksAt, exclusive] using this
  | releaseAll bs => exact hinsert h
  | scanHeaderNode b =>
    have hb : b ≠ 0 := h
    simpa [locksAt] using hb.symm
  | idle | insertHeader | scanHeader | scanNode b | deleteHeader | delete b l | deleteBlock b l =>
    simp [locksAt, insertLocks]

variable {l : Lock ℕ}

theorem locksAt_waiting {proc : Proc} {held : List (Lock ℕ)} (h : held ++ [l] = locksAt proc) :
    held = [] ∨ held = [⟨0, .share⟩] ∨ exclusive 0 ∈ held := by
  have hinsert : ∀ {ls : List (Lock ℕ)}, held ++ [l] = exclusive 0 :: ls → held = [] ∨
      exclusive 0 ∈ held := by
    intro ls heq
    cases held with
    | nil => exact .inl rfl
    | cons k ks =>
      rw [List.cons_append, List.cons.injEq] at heq
      exact .inr (heq.1 ▸ List.mem_cons_self)
  have hsingle : ∀ {k : Lock ℕ}, held ++ [l] = [k] → held = [] := by
    intro k heq
    have hlen := congrArg List.length heq
    rw [List.length_append, List.length_singleton, List.length_singleton] at hlen
    exact List.length_eq_zero_iff.mp (by omega)
  cases proc with
  | insertHeader | insert c | lastPage c | insertNodeMut c b | lastLocked c b | newLocked c b
    | releaseAll bs
  | insertNode c b =>
    exact (hinsert h).imp_right .inr
  | scanHeaderNode b =>
    have hconcat : held ++ [l] = [⟨0, .share⟩] ++ [⟨b, .share⟩] := h
    exact .inr (.inl (List.append_inj_left' hconcat rfl))
  | scanHeader | scanNode b | deleteHeader | deleteBlock b last => exact .inl (hsingle h)
  | idle | delete b last => exact absurd h (by simp [locksAt])

theorem Follows.waiting_locks {n : ℕ} {o : Backend} (h : Follows n o) (hw : o.waiting = some l) :
    o.held ++ [l] = locksAt o.proc := by
  rw [← h.locks, hw]
  rfl

structure Inv (s : State P) : Prop where
  index : s.index.Valid
  follows : ∀ p, Follows s.index.blocks (s.backends p)
  exclusive : Exclusive s.backends

theorem Starts.inv {s : State P} (h : Starts s) : Inv s where
  index := h.1
  follows := fun p => by
    rw [h.2 p]
    exact ⟨rfl, trivial⟩
  exclusive := fun p q _ l hl => by
    rw [h.2 p] at hl
    cases hl

theorem Inv.keyed {s : State P} (h : Inv s) : Keyed s.backends 0 where
  exclusive := h.exclusive
  fresh := by
    intro p l hw k hk he
    have hnodup := locksAt_nodup (h.follows p).valid
    rw [← (h.follows p).waiting_locks hw, List.map_append, List.nodup_append] at hnodup
    exact hnodup.2.2 k.resource (List.mem_map_of_mem hk) l.resource (by simp) he
  key_held := by
    intro p l k hw hk
    rcases locksAt_waiting ((h.follows p).waiting_locks hw) with hnil | hshare | hkey
    · rw [hnil] at hk
      cases hk
    · exact ⟨⟨0, .share⟩, by rw [hshare]; exact List.mem_cons_self, rfl⟩
    · exact ⟨BufferLocks.exclusive 0, hkey, rfl⟩
  key_alone := by
    intro p l k hw hk hne
    rcases locksAt_waiting ((h.follows p).waiting_locks hw) with hnil | hshare | hkey
    · rw [hnil] at hk
      cases hk
    · rw [hshare, List.mem_singleton] at hk
      rw [hk] at hne
      exact absurd rfl hne
    · exact ⟨BufferLocks.exclusive 0, hkey, rfl, rfl⟩

variable [Fintype P] [DecidableEq P]

theorem Follows.granted {n : ℕ} {o : Backend} (h : Follows n o) (hw : o.waiting = some l) :
    Follows n { o with held := o.held ++ [l], waiting := none } := by
  refine ⟨?_, h.valid⟩
  have hlocks := h.locks
  rw [hw] at hlocks
  simpa using hlocks

theorem Inv.step {s t : State P} (h : Inv s) {p : P} {a : Action} (ha : DataBlocks a)
    (hstep : step s (p, a) = some t) : Inv t := by
  unfold BufferLocks.step at hstep
  split at hstep
  · rename_i p' heq
    cases heq
    obtain ⟨bs, hgrant, rfl⟩ := Option.map_eq_some_iff.mp hstep
    obtain ⟨l, hw, hcan, rfl⟩ := grant_eq_some.mp hgrant
    refine ⟨h.index, fun q => ?_, h.exclusive.update fun k hk => ?_⟩
    · by_cases hq : q = p
      · subst hq
        simp only [Function.update_self]
        exact (h.follows q).granted hw
      · simp only [Function.update_of_ne hq]
        exact h.follows q
    · rcases List.mem_append.mp hk with hk | hk
      · exact .inl hk
      · rw [List.mem_singleton.mp hk]
        exact .inr hcan
  · rename_i p' a' _ heq
    cases heq
    split at hstep
    · rename_i hw
      obtain ⟨⟨idx, o⟩, hact, rfl⟩ := Option.map_eq_some_iff.mp hstep
      have hkeeps := (h.follows p).act hw h.index ha hact
      refine ⟨hkeeps.valid, fun q => ?_, h.exclusive.update fun k hk => .inl (hkeeps.held k hk)⟩
      by_cases hq : q = p
      · subst hq
        simp only [Function.update_self]
        exact hkeeps.follows
      · simp only [Function.update_of_ne hq]
        exact ⟨(h.follows q).locks, (h.follows q).valid.mono hkeeps.grows⟩
    · cases hstep

theorem reachable_inv {s : State P} (h : Reachable backends s) : Inv s := by
  refine h.invariant Inv (fun s hs => Starts.inv hs) ?_
  rintro u v hu ⟨⟨p, a⟩, ha, hstep⟩
  exact hu.step ha hstep

/-- No backend asks for a buffer it has locked, and no backends wait in a circle. -/
theorem no_lock_cycle {s : State P} (h : Reachable backends s) :
    (∀ p l, (s.backends p).waiting = some l → ∀ k ∈ (s.backends p).held, k.resource ≠ l.resource) ∧
      ∀ p, ¬Relation.TransGen (WaitsFor s.backends) p p :=
  ⟨(reachable_inv h).keyed.fresh, (reachable_inv h).keyed.no_cycle⟩

end Runs

/-! Two inserts, of which the second waits for the header, and a scan that waits
    for a block the first has registered. -/

def threeBackends : State (Fin 3) := ⟨⟨4, some 3⟩, fun _ => ⟨.idle, [], none⟩⟩

def contended : List (Fin 3 × Action) :=
  [(0, .insert), (1, .insert), (0, .grant), (0, .advance true), (0, .retrieverMut 2), (0, .grant),
    (0, .advance true), (2, .retriever 2), (0, .retriever 1)]

theorem contended_waits :
    ∃ s, runActions step threeBackends contended = some s ∧ WaitsFor s.backends 1 0 ∧
      WaitsFor s.backends 2 0 ∧ (s.backends 0).waiting = some ⟨1, .share⟩ ∧
      (∀ p l, (s.backends p).waiting = some l →
        ∀ k ∈ (s.backends p).held, k.resource ≠ l.resource) ∧
      ∀ p, ¬Relation.TransGen (WaitsFor s.backends) p p := by
  have hstart : Starts threeBackends := ⟨⟨by decide, by simp [threeBackends]⟩, fun _ => rfl⟩
  have hok : ∀ a ∈ contended, ∀ _ : State (Fin 3), DataBlocks a.2 := by
    simp [contended, DataBlocks]
  have h0 : Reachable backends threeBackends := .start hstart
  refine ⟨_, rfl, ⟨⟨0, .exclusive⟩, rfl, ⟨0, .exclusive⟩, ?_, rfl⟩,
    ⟨⟨2, .share⟩, rfl, ⟨2, .exclusive⟩, ?_, rfl⟩, rfl,
    no_lock_cycle (reachable_runActions h0 hok rfl)⟩
  · exact List.mem_cons_self
  · exact List.mem_cons_of_mem _ List.mem_cons_self

end Lantern.BufferLocks
