import Mathlib.Tactic
import Mathlib.Data.List.Basic

set_option autoImplicit false

/-!
# Little-endian integers and in-place writes on byte strings

A byte string is a list of bytes. `leBytes w n` is the `w`-byte little-endian
image of `n`, `leNat` reads one back; `slice` reads a field at an offset and
`patch` overwrites one, as `memcpy` does on a buffer that has room for it.
`chunks` cuts a list into pieces of one length.
-/
namespace Lantern.ByteStrings

def leNat : List UInt8 → ℕ
  | [] => 0
  | b :: bs => b.toNat + 256 * leNat bs

/-- The low `w` bytes of `n`, least significant first. -/
def leBytes : ℕ → ℕ → List UInt8
  | 0, _ => []
  | w + 1, n => UInt8.ofNat n :: leBytes w (n / 256)

@[simp] theorem leBytes_length (w n : ℕ) : (leBytes w n).length = w := by
  induction w generalizing n with
  | zero => rfl
  | succ w ih => simp [leBytes, ih]

theorem leNat_leBytes (w n : ℕ) : leNat (leBytes w n) = n % 256 ^ w := by
  induction w generalizing n with
  | zero => simp [leBytes, leNat, Nat.mod_one]
  | succ w ih =>
    have hb : (UInt8.ofNat n).toNat = n % 256 := by simp
    simp only [leBytes, leNat, ih, hb]
    rw [pow_succ, Nat.mul_comm (256 ^ w) 256, Nat.mod_mul]

theorem leNat_leBytes_of_lt {w n : ℕ} (h : n < 256 ^ w) : leNat (leBytes w n) = n := by
  rw [leNat_leBytes, Nat.mod_eq_of_lt h]

theorem leBytes_leNat (bs : List UInt8) : leBytes bs.length (leNat bs) = bs := by
  induction bs with
  | nil => rfl
  | cons b bs ih =>
    have hlt : b.toNat < 256 := b.toNat_lt
    have hdiv : (b.toNat + 256 * leNat bs) / 256 = leNat bs := by omega
    have hmod : UInt8.ofNat (b.toNat + 256 * leNat bs) = b := by
      apply UInt8.toNat_inj.mp
      simp only [UInt8.toNat_ofNat']
      omega
    simp only [List.length_cons, leBytes, leNat, hdiv, hmod, ih]

theorem leNat_lt (bs : List UInt8) : leNat bs < 256 ^ bs.length := by
  induction bs with
  | nil => simp [leNat]
  | cons b bs ih =>
    have hb := b.toNat_lt
    rw [leNat, List.length_cons, pow_succ]
    omega

variable {bs w xs : List UInt8} {len : ℕ}

theorem leNat_injective {ys : List UInt8} (hl : xs.length = ys.length) (h : leNat xs = leNat ys) :
    xs = ys := by
  rw [← leBytes_leNat xs, ← leBytes_leNat ys, hl, h]

theorem take_leBytes {k w : ℕ} (h : k ≤ w) (n : ℕ) : (leBytes w n).take k = leBytes k n := by
  induction k generalizing w n with
  | zero => rfl
  | succ k ih =>
    obtain ⟨w, rfl⟩ : ∃ v, w = v + 1 := ⟨w - 1, by omega⟩
    simp only [leBytes, List.take_succ_cons, ih (by omega : k ≤ w)]

def slice (off len : ℕ) (bs : List UInt8) : List UInt8 := (bs.drop off).take len

def patch (off : ℕ) (w bs : List UInt8) : List UInt8 :=
  bs.take off ++ w ++ bs.drop (off + w.length)

theorem slice_append_left {off : ℕ} (h : off + len ≤ xs.length) (ys : List UInt8) :
    slice off len (xs ++ ys) = slice off len xs := by
  have hle : off ≤ xs.length := by omega
  simp only [slice]
  rw [List.drop_append_of_le_length hle, List.take_append_of_le_length (by simp; omega)]

theorem slice_append_right (a b : ℕ) (xs ys : List UInt8) :
    slice (xs.length + a) b (xs ++ ys) = slice a b ys := by
  simp only [slice]
  rw [List.drop_append, List.drop_eq_nil_of_le (by omega), List.nil_append, Nat.add_sub_cancel_left]

theorem slice_whole (xs : List UInt8) : slice 0 xs.length xs = xs := by
  simp [slice]

theorem slice_getElem? (off len i : ℕ) (bs : List UInt8) :
    (slice off len bs)[i]? = if i < len then bs[off + i]? else none := by
  simp only [slice, List.getElem?_take, List.getElem?_drop]

theorem patch_length {off : ℕ} (h : off + w.length ≤ bs.length) :
    (patch off w bs).length = bs.length := by
  simp only [patch, List.length_append, List.length_take, List.length_drop]
  omega

theorem patch_zero (w bs : List UInt8) : patch 0 w bs = w ++ bs.drop w.length := by
  simp [patch]

theorem patch_getElem? {off : ℕ} (h : off + w.length ≤ bs.length) (i : ℕ) :
    (patch off w bs)[i]? =
      if off ≤ i ∧ i < off + w.length then w[i - off]? else bs[i]? := by
  have hoff : (bs.take off).length = off := by simp; omega
  unfold patch
  rw [List.append_assoc]
  by_cases hlow : i < off
  · rw [List.getElem?_append_left (by omega), if_neg (by omega), List.getElem?_take, if_pos hlow]
  · rw [List.getElem?_append_right (by omega), hoff]
    by_cases hmid : i < off + w.length
    · rw [List.getElem?_append_left (by omega), if_pos (by omega)]
    · rw [List.getElem?_append_right (by omega), if_neg (by omega), List.getElem?_drop]
      congr 1
      omega

theorem slice_patch_self {off : ℕ} (h : off + w.length ≤ bs.length) :
    slice off w.length (patch off w bs) = w := by
  apply List.ext_getElem?
  intro i
  rw [slice_getElem?, patch_getElem? h]
  by_cases hi : i < w.length
  · rw [if_pos hi, if_pos (by omega), Nat.add_sub_cancel_left]
  · rw [if_neg hi, List.getElem?_eq_none (by omega)]

theorem slice_patch_disjoint {off pos : ℕ} (h : pos + w.length ≤ bs.length)
    (hd : off + len ≤ pos ∨ pos + w.length ≤ off) :
    slice off len (patch pos w bs) = slice off len bs := by
  apply List.ext_getElem?
  intro i
  rw [slice_getElem?, slice_getElem?, patch_getElem? h]
  by_cases hi : i < len
  · rw [if_pos hi, if_pos hi, if_neg (by omega)]
  · rw [if_neg hi, if_neg hi]

theorem slice_slice {a b off : ℕ} (h : a + b ≤ len) :
    slice a b (slice off len bs) = slice (off + a) b bs := by
  apply List.ext_getElem?
  intro i
  rw [slice_getElem?, slice_getElem?, slice_getElem?]
  by_cases hi : i < b
  · rw [if_pos hi, if_pos hi, if_pos (by omega), Nat.add_assoc]
  · rw [if_neg hi, if_neg hi]

theorem slice_congr {off : ℕ} {ys : List UInt8}
    (h : ∀ i, off ≤ i → i < off + len → xs[i]? = ys[i]?) : slice off len xs = slice off len ys := by
  apply List.ext_getElem?
  intro i
  rw [slice_getElem?, slice_getElem?]
  by_cases hi : i < len
  · rw [if_pos hi, if_pos hi, h (off + i) (by omega) (by omega)]
  · rw [if_neg hi, if_neg hi]

def rewriteWindow (w : ℕ) (f : List UInt8 → List UInt8) (bs : List UInt8) (off : ℕ) : List UInt8 :=
  patch off (f (slice off w bs)) bs

/-- The windows of `r` are the rewritten windows of `bs`, the other bytes are
    those of `bs`. -/
structure WindowsRewritten (w : ℕ) (f : List UInt8 → List UInt8) (offs : List ℕ)
    (bs r : List UInt8) : Prop where
  length_eq : r.length = bs.length
  window : ∀ off ∈ offs, slice off w r = f (slice off w bs)
  outside : ∀ i, (∀ off ∈ offs, ¬ (off ≤ i ∧ i < off + w)) → r[i]? = bs[i]?

theorem WindowsRewritten.step {w : ℕ} {f : List UInt8 → List UInt8} {offs : List ℕ} {r : List UInt8}
    {off : ℕ} (hf : ∀ s, (f s).length = w) (h : WindowsRewritten w f offs bs r)
    (hb : off + w ≤ bs.length) (hd : ∀ a ∈ offs, a + w ≤ off) :
    WindowsRewritten w f (offs ++ [off]) bs (rewriteWindow w f r off) := by
  have hr : off + (f (slice off w r)).length ≤ r.length := by
    rw [hf, h.length_eq]
    exact hb
  have hold : slice off w r = slice off w bs := by
    refine slice_congr fun i hlo hhi => h.outside i fun a ha => ?_
    have := hd a ha
    omega
  refine ⟨by rw [rewriteWindow, patch_length hr, h.length_eq], ?_, ?_⟩
  · intro a ha
    rcases List.mem_append.mp ha with ha | ha
    · have := hd a ha
      rw [rewriteWindow, slice_patch_disjoint hr (by omega)]
      exact h.window a ha
    · rw [List.mem_singleton.mp ha, ← hold]
      have hself := slice_patch_self hr
      rw [hf] at hself
      exact hself
  · intro i hi
    rw [rewriteWindow, patch_getElem? hr, hf, if_neg (hi off (by simp))]
    exact h.outside i fun a ha => hi a (List.mem_append_left _ ha)

theorem rewriteWindows_spec {w : ℕ} {f : List UInt8 → List UInt8} (hf : ∀ s, (f s).length = w)
    {offs : List ℕ} (hb : ∀ off ∈ offs, off + w ≤ bs.length)
    (hp : offs.Pairwise fun a b => a + w ≤ b) :
    WindowsRewritten w f offs bs (offs.foldl (rewriteWindow w f) bs) := by
  induction offs using List.reverseRecOn with
  | nil => exact ⟨rfl, by simp, fun i _ => rfl⟩
  | append_singleton offs off ih =>
    rw [List.pairwise_append] at hp
    rw [List.foldl_append]
    exact (ih (fun a ha => hb a (List.mem_append_left _ ha)) hp.1).step hf (hb off (by simp))
      fun a ha => hp.2.2 a ha off (by simp)

section Chunks
variable {α : Type}

/-- Pieces of one length, the last of which may be shorter; not more than the fuel. -/
def chunks (n : ℕ) : ℕ → List α → List (List α)
  | 0, _ => []
  | _ + 1, [] => []
  | fuel + 1, x :: xs => (x :: xs).take n :: chunks n fuel ((x :: xs).drop n)

variable {n : ℕ}

theorem length_flatten_of_length {pieces : List (List α)} (h : ∀ p ∈ pieces, p.length = n) :
    pieces.flatten.length = pieces.length * n := by
  rw [List.length_flatten, List.eq_replicate_of_mem (List.forall_mem_map.mpr h), List.sum_replicate,
    List.length_map, smul_eq_mul]

theorem flatten_chunks (hn : 0 < n) {fuel : ℕ} {xs : List α} (hfuel : xs.length ≤ fuel) :
    (chunks n fuel xs).flatten = xs := by
  induction fuel generalizing xs with
  | zero => exact (List.length_eq_zero_iff.mp (Nat.le_zero.mp hfuel)).symm
  | succ fuel ih =>
    cases xs with
    | nil => rfl
    | cons x xs =>
      have hrest : ((x :: xs).drop n).length ≤ fuel := by
        rw [List.length_drop]
        omega
      rw [chunks, List.flatten_cons, ih hrest, List.take_append_drop]

theorem chunks_of_ne_nil {fuel : ℕ} {xs : List α} (h : xs ≠ []) :
    chunks n (fuel + 1) xs = xs.take n :: chunks n fuel (xs.drop n) := by
  cases xs with
  | nil => exact absurd rfl h
  | cons x xs => rfl

theorem chunks_flatten (hn : 0 < n) {pieces : List (List α)}
    (hpieces : ∀ p ∈ pieces, p.length = n) {fuel : ℕ} (hfuel : pieces.flatten.length ≤ fuel) :
    chunks n fuel pieces.flatten = pieces := by
  induction pieces generalizing fuel with
  | nil => cases fuel <;> rfl
  | cons p pieces ih =>
    obtain ⟨hp, hrest⟩ := List.forall_mem_cons.mp hpieces
    rw [List.flatten_cons, List.length_append] at hfuel
    obtain ⟨fuel, rfl⟩ := Nat.exists_eq_add_of_le' (show 1 ≤ fuel by omega)
    cases p with
    | nil => exact absurd hp hn.ne
    | cons x p =>
      rw [List.flatten_cons, List.cons_append, chunks, ← List.cons_append, List.take_left' hp,
        List.drop_left' hp, ih hrest (by rw [List.length_cons] at hfuel; omega)]

end Chunks

end Lantern.ByteStrings
