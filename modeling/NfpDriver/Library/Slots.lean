import Mathlib.Data.BitVec
import Mathlib.Logic.Function.Basic

namespace Slots

open Function BitVec List Option Nat

variable {k m n q lo' i : Nat}

section Counter

variable {w : Nat}

def idx (k : Nat) (p : BitVec w) : Nat := (p &&& BitVec.ofNat w (2 ^ k - 1)).toNat

theorem idx_ofNat (hk : k ≤ w) (n : Nat) : idx k (BitVec.ofNat w n) = n % 2 ^ k := by
  have hlt : 2 ^ k - 1 < 2 ^ w :=
    lt_of_lt_of_le (sub_lt (Nat.two_pow_pos k) one_pos) (Nat.pow_le_pow_right (by decide) hk)
  rw [idx, toNat_and, toNat_ofNat, toNat_ofNat, mod_eq_of_lt hlt, and_two_pow_sub_one_eq_mod]
  exact mod_mod_of_dvd n (Nat.pow_dvd_pow 2 hk)

theorem idx_eq_mod (hk : k ≤ w) (p : BitVec w) : idx k p = p.toNat % 2 ^ k := by
  have h := idx_ofNat hk p.toNat
  rwa [ofNat_toNat, setWidth_eq] at h

theorem idx_sub_mod (hk : k ≤ w) (m n : Nat) :
    idx k (BitVec.ofNat w (m % 2 ^ k) - BitVec.ofNat w (n % 2 ^ k)) = idx k (BitVec.ofNat w m - BitVec.ofNat w n) := by
  have hdvd : 2 ^ k ∣ 2 ^ w := Nat.pow_dvd_pow 2 hk
  have hres (x : Nat) : (x % 2 ^ k) % 2 ^ w ≡ x % 2 ^ w [MOD 2 ^ k] := by
    rw [ModEq, mod_mod_of_dvd _ hdvd, mod_mod_of_dvd _ hdvd, mod_mod]
  have hlt (x : Nat) : x % 2 ^ w ≤ 2 ^ w := le_of_lt (mod_lt _ (Nat.two_pow_pos w))
  rw [idx_eq_mod hk, idx_eq_mod hk, toNat_sub, toNat_sub, mod_mod_of_dvd _ hdvd, mod_mod_of_dvd _ hdvd]
  simp only [toNat_ofNat]
  refine Nat.ModEq.add_right_cancel (hres n) ?_
  rw [add_right_comm, Nat.sub_add_cancel (hlt _), add_right_comm, Nat.sub_add_cancel (hlt _)]
  exact Nat.ModEq.add_left _ (hres m)

theorem sub_ofNat (h : m ≤ n) : BitVec.ofNat w n - BitVec.ofNat w m = BitVec.ofNat w (n - m) := by
  obtain ⟨d, rfl⟩ := Nat.exists_eq_add_of_le h
  rw [ofNat_add, Nat.add_sub_cancel_left, BitVec.add_comm]
  exact BitVec.add_sub_cancel _ _

theorem toNat_sub_ofNat (h : m ≤ n) (h' : n < m + 2 ^ w) : (BitVec.ofNat w n - BitVec.ofNat w m).toNat = n - m := by
  rw [sub_ofNat h, toNat_ofNat, mod_eq_of_lt (Nat.sub_lt_left_of_lt_add h h')]

theorem ofNat_inj (h : m ≤ n) (h' : n < m + 2 ^ w) (heq : BitVec.ofNat w n = BitVec.ofNat w m) : n = m := by
  have hsub := toNat_sub_ofNat h h'
  rw [heq, BitVec.sub_self, toNat_zero] at hsub
  exact le_antisymm (Nat.sub_eq_zero_iff_le.mp hsub.symm) h

theorem idx_add (hk : k ≤ w) (p : BitVec w) (i : Nat) : idx k (p + BitVec.ofNat w i) = (p.toNat + i) % 2 ^ k := by
  have hp : p + BitVec.ofNat w i = BitVec.ofNat w (p.toNat + i) := by
    rw [ofNat_add, ofNat_toNat, setWidth_eq]
  rw [hp, idx_ofNat hk]

end Counter

section Window

variable {α : Type} {buf : Nat → α} {size lo : Nat} {log : List α}

def Window (buf : Nat → α) (size lo : Nat) (log : List α) : Prop :=
  ∀ p x, lo ≤ p → log[p]? = some x → buf (p % size) = x

theorem mod_ne {p : Nat} (h : p < q) (h' : q < p + size) : p % size ≠ q % size := by
  intro heq
  have hd : size ∣ q - p := (modEq_iff_dvd' (le_of_lt h)).mp heq
  have := le_of_dvd (Nat.sub_pos_of_lt h) hd
  omega

theorem Window.mono (h : Window buf size lo log) (hle : lo ≤ lo') : Window buf size lo' log :=
  fun p x hp hx => h p x (le_trans hle hp) hx

theorem Window.left {log' : List α} (h : Window buf size lo (log ++ log')) : Window buf size lo log :=
  fun p x hp hx => h p x hp (by rw [List.getElem?_append_left (List.getElem?_eq_some_iff.mp hx).1]; exact hx)

theorem Window.ahead (h : Window buf size lo log) (hq : log.length ≤ q) (hq' : q < lo + size) (y : α) :
    Window (update buf (q % size) y) size lo log := by
  intro p x hp hx
  have hlt : p < log.length := (List.getElem?_eq_some_iff.mp hx).1
  rw [update_of_ne (mod_ne (lt_of_lt_of_le hlt hq) (by omega))]
  exact h p x hp hx

theorem Window.behind (h : Window buf size lo log) (hq : q < lo) (hq' : log.length ≤ q + size) (y : α) :
    Window (update buf (q % size) y) size lo log := by
  intro p x hp hx
  have hlt : p < log.length := (List.getElem?_eq_some_iff.mp hx).1
  rw [update_of_ne (Ne.symm (mod_ne (by omega) (by omega)))]
  exact h p x hp hx

theorem Window.push (h : Window buf size lo log) (hfit : log.length < lo + size) (y : α) :
    Window (update buf (log.length % size) y) size lo (log ++ [y]) := by
  intro p x hp hx
  rcases lt_or_ge p log.length with hlt | hge
  · rw [List.getElem?_append_left hlt] at hx
    exact h.ahead le_rfl hfit y p x hp hx
  rw [List.getElem?_append_right hge, List.getElem?_singleton] at hx
  split at hx
  · next heq =>
    have hp : p = log.length := by omega
    rw [hp, update_self]
    exact some.inj hx
  · cases hx

end Window

section Write

variable {α : Type} {buf : Nat → α} {size lo : Nat}

def write (buf : Nat → α) (i : Nat) : List α → Nat → α
  | [] => buf
  | x :: xs => write (Function.update buf i x) (i + 1) xs

theorem write_before (h : n < i) (xs : List α) : write buf i xs n = buf n := by
  induction xs generalizing buf i with
  | nil => rfl
  | cons x xs ih =>
    rw [write, ih (lt_succ_of_lt h)]
    exact update_of_ne (Nat.ne_of_lt h) x buf

theorem write_after {xs : List α} (h : i + xs.length ≤ n) : write buf i xs n = buf n := by
  induction xs generalizing buf i with
  | nil => rfl
  | cons x xs ih =>
    rw [length_cons] at h
    rw [write, ih (by omega)]
    exact update_of_ne (show n ≠ i by omega) x buf

theorem write_get {xs : List α} {x : α} (i : Nat) (h : xs[n]? = some x) : write buf i xs (i + n) = x := by
  induction xs generalizing buf i n with
  | nil => cases h
  | cons y ys ih =>
    cases n with
    | zero =>
      obtain rfl := some.inj h
      exact (write_before (lt_succ_self i) ys).trans (update_self i y buf)
    | succ n =>
      rw [write, ← ih (i + 1) h]
      exact congrArg _ (by omega)

def Marks (buf : Nat → α) (size lo : Nat) (log : List (Option α)) : Prop :=
  ∀ p x, lo ≤ p → log[p]? = some (some x) → buf (p % size) = x

theorem Marks.mono {log : List (Option α)} (h : Marks buf size lo log) (hle : lo ≤ lo') : Marks buf size lo' log :=
  fun p x hp hx => h p x (le_trans hle hp) hx

theorem Marks.left {log log' : List (Option α)} (h : Marks buf size lo (log ++ log')) : Marks buf size lo log :=
  fun p x hp hx => h p x hp (by rw [List.getElem?_append_left (List.getElem?_eq_some_iff.mp hx).1]; exact hx)

theorem Marks.ahead {log : List (Option α)} (h : Marks buf size lo log) (hq : log.length ≤ q) (hq' : q < lo + size)
    (y : α) : Marks (update buf (q % size) y) size lo log := by
  intro p x hp hx
  have hlt : p < log.length := (List.getElem?_eq_some_iff.mp hx).1
  rw [update_of_ne (mod_ne (lt_of_lt_of_le hlt hq) (by omega))]
  exact h p x hp hx

theorem mod_add_of_fits (h : n % size + m < size) : (n + m) % size = n % size + m := by
  rw [add_mod, mod_eq_of_lt (show m < size by omega), mod_eq_of_lt h]

theorem Marks.write {log : List (Option α)} (h : Marks buf size lo log) (xs : List α) (ys : List (Option α))
    (hmatch : ∀ (n : Nat) (x : α), ys[n]? = some (some x) → xs[n]? = some x) (hlen : xs.length ≤ ys.length)
    (hwrap : log.length % size + ys.length ≤ size) (hfit : log.length + ys.length ≤ lo + size) :
    Marks (Slots.write buf (log.length % size) xs) size lo (log ++ ys) := by
  intro p x hp hx
  rcases lt_or_ge p log.length with hlt | hge
  · rw [List.getElem?_append_left hlt] at hx
    rw [← h p x hp hx]
    rcases lt_or_ge (p % size) (log.length % size) with hb | hb
    · exact write_before hb xs
    rcases lt_or_ge (p % size) (log.length % size + xs.length) with ha | ha
    · obtain ⟨m, hm⟩ := Nat.exists_eq_add_of_le hb
      have hq : (log.length + m) % size = p % size := by
        rw [mod_add_of_fits (by omega), hm]
      exact absurd hq.symm (mod_ne (by omega) (by omega))
    · exact write_after ha
  · rw [List.getElem?_append_right hge] at hx
    obtain ⟨m, rfl⟩ := Nat.exists_eq_add_of_le hge
    rw [Nat.add_sub_cancel_left] at hx
    have hm : m < ys.length := (List.getElem?_eq_some_iff.mp hx).1
    rw [mod_add_of_fits (by omega)]
    exact write_get _ (hmatch m x hx)

theorem window_iff_marks {log : List α} : Window buf size lo log ↔ Marks buf size lo (log.map some) := by
  refine forall_congr' fun p => forall_congr' fun x => imp_congr_right fun _ => ?_
  simp

theorem Window.write {log xs : List α} (h : Window buf size lo log) (hwrap : log.length % size + xs.length ≤ size)
    (hfit : log.length + xs.length ≤ lo + size) :
      Window (Slots.write buf (log.length % size) xs) size lo (log ++ xs) := by
  rw [window_iff_marks] at h ⊢
  have hmap : (log.map some).length = log.length := length_map some
  rw [map_append, ← hmap]
  refine Marks.write h xs (xs.map some) (fun n x hn => ?_) (le_of_eq (length_map some).symm) ?_ ?_
  · rw [List.getElem?_map, map_eq_some_iff] at hn
    obtain ⟨y, hy, hxy⟩ := hn
    rw [hy, some.inj hxy]
  · rw [hmap, length_map]
    exact hwrap
  · rw [hmap, length_map]
    exact hfit

end Write

section Queue

variable {α : Type} {w k n : Nat} {buf : Nat → α} {p : BitVec w}

def queue (k : Nat) (buf : Nat → α) (p : BitVec w) (n : Nat) : List α :=
  (List.range n).map fun i => buf (idx k (p + BitVec.ofNat w i))

theorem queue_length : (queue k buf p n).length = n := by rw [queue, List.length_map, List.length_range]

theorem queue_head : queue k buf p (n + 1) = buf (idx k p) :: queue k buf (p + 1) n := by
  rw [queue, List.range_succ_eq_map, List.map_cons, List.map_map, BitVec.add_zero]
  refine congrArg (_ :: ·) (List.map_congr_left fun i _ => ?_)
  rw [comp_apply, succ_eq_add_one, Nat.add_comm, ofNat_add, ← BitVec.add_assoc]
  rfl

theorem queue_add (m : Nat) : queue k buf p (m + n) = queue k buf p m ++ queue k buf (p + BitVec.ofNat w m) n := by
  rw [queue, range_add, map_append, List.map_map]
  refine congrArg (_ ++ ·) (List.map_congr_left fun i _ => ?_)
  rw [comp_apply, ofNat_add, ← BitVec.add_assoc]

theorem queue_congr {buf' : Nat → α} (h : ∀ i < n, buf' (idx k (p + BitVec.ofNat w i)) =
    buf (idx k (p + BitVec.ofNat w i))) :
    queue k buf' p n = queue k buf p n :=
  List.map_congr_left fun i hi => h i (mem_range.mp hi)

theorem queue_snoc (hk : k ≤ w) (hn : n < 2 ^ k) (x : α) :
    queue k (update buf (idx k (p + BitVec.ofNat w n)) x) p (n + 1) = queue k buf p n ++ [x] := by
  rw [queue, range_succ, map_append, map_singleton, update_self]
  refine congrArg (· ++ _) (List.map_congr_left fun i hi => ?_)
  have hlt := mem_range.mp hi
  rw [update_of_ne]
  rw [idx_add hk, idx_add hk]
  exact mod_ne (by omega) (by omega)

end Queue

end Slots
