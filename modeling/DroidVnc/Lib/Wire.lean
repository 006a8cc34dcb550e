import Mathlib.Algebra.Order.Ring.Nat
import Mathlib.Data.List.Basic

/-! Reading from a stream of bytes what has been written to it. A reader takes bytes from
the front, and has no result where there are too few. `Reads p bytes a` says that `p` makes
`a` of `bytes`, whatever comes after them. -/

namespace Wire

variable {β α γ σ ι : Type}

abbrev Reader (β : Type) := StateT (List β) Option

def take (n : ℕ) : Reader β (List β) :=
  fun l => if n ≤ l.length then some (l.take n, l.drop n) else none

def loop (f : σ → Reader β σ) : ℕ → σ → Reader β σ
  | 0, s => pure s
  | n + 1, s => f s >>= loop f n

def Reads (p : Reader β α) (bytes : List β) (a : α) : Prop :=
  ∀ rest, p (bytes ++ rest) = some (a, rest)

theorem Reads.pure (a : α) : Reads (Pure.pure a : Reader β α) [] a := fun _ => rfl

theorem Reads.bind {p : Reader β α} {f : α → Reader β γ} {bytes bytes' : List β} {a : α} {c : γ}
    (hp : Reads p bytes a) (hf : Reads (f a) bytes' c) : Reads (p >>= f) (bytes ++ bytes') c := by
  intro rest
  show (p ((bytes ++ bytes') ++ rest)).bind (fun r => f r.1 r.2) = _
  rw [List.append_assoc, hp, Option.bind_some]
  exact hf rest

theorem Reads.map {p : Reader β α} {bytes : List β} {a : α} (g : α → γ) (hp : Reads p bytes a) :
    Reads (p >>= fun b => Pure.pure (g b)) bytes (g a) := by
  intro rest
  show (p (bytes ++ rest)).bind _ = _
  rw [hp]
  rfl

/-- Nothing is read between. -/
theorem Reads.of_eq {p : Reader β α} {bytes bytes' : List β} {a a' : α} (hp : Reads p bytes a)
    (hb : bytes = bytes') (ha : a = a') : Reads p bytes' a' :=
  hb ▸ ha ▸ hp

theorem reads_take {bytes : List β} {n : ℕ} (h : bytes.length = n) :
    Reads (take n) bytes bytes := by
  intro rest
  subst h
  show (if _ then _ else _) = _
  rw [if_pos (by rw [List.length_append]; omega), List.take_left, List.drop_left]

/-- A loop over things that were written one after another. -/
theorem Reads.loop {f : σ → Reader β σ} {g : σ → ι → σ} {bytes : ι → List β} {l : List ι}
    (h : ∀ i ∈ l, ∀ s, Reads (f s) (bytes i) (g s i)) (s : σ) :
    Reads (Wire.loop f l.length s) (l.flatMap bytes) (l.foldl g s) := by
  induction l generalizing s with
  | nil => exact Reads.pure s
  | cons i l ih =>
    rw [List.flatMap_cons]
    exact (h i List.mem_cons_self s).bind (ih (fun k hk => h k (List.mem_cons_of_mem i hk)) _)

/-- A loop over what both sides know. -/
theorem Reads.foldlM {f : σ → ι → Reader β σ} {g : σ → ι → σ} {bytes : ι → List β} {l : List ι}
    (h : ∀ i ∈ l, ∀ s, Reads (f s i) (bytes i) (g s i)) (s : σ) :
    Reads (l.foldlM f s) (l.flatMap bytes) (l.foldl g s) := by
  induction l generalizing s with
  | nil => exact Reads.pure s
  | cons i l ih =>
    rw [List.flatMap_cons, List.foldlM_cons]
    exact (h i List.mem_cons_self s).bind (ih (fun k hk => h k (List.mem_cons_of_mem i hk)) _)

theorem length_flatMap_of_forall {f : ι → List β} {k : ℕ} {l : List ι}
    (h : ∀ i ∈ l, (f i).length = k) : (l.flatMap f).length = k * l.length := by
  induction l with
  | nil => rfl
  | cons i l ih =>
    rw [List.forall_mem_cons] at h
    rw [List.flatMap_cons, List.length_append, h.1, ih h.2, List.length_cons, Nat.mul_succ,
      Nat.add_comm]

/-! ### Numbers, the high byte first -/

/-- `k` bytes of a number. -/
def bigEndian : ℕ → ℕ → List UInt8
  | 0, _ => []
  | k + 1, n => bigEndian k (n / 256) ++ [UInt8.ofNat n]

def value (bytes : List UInt8) : ℕ := bytes.foldl (fun n b => 256 * n + b.toNat) 0

@[simp] theorem length_bigEndian (k n : ℕ) : (bigEndian k n).length = k := by
  induction k generalizing n with
  | zero => rfl
  | succ k ih => rw [bigEndian, List.length_append, ih, List.length_singleton]

theorem value_bigEndian {k n : ℕ} (h : n < 256 ^ k) : value (bigEndian k n) = n := by
  induction k generalizing n with
  | zero =>
    rw [pow_zero, Nat.lt_one_iff] at h
    rw [h]
    rfl
  | succ k ih =>
    have hdiv : n / 256 < 256 ^ k := Nat.div_lt_of_lt_mul (by rwa [pow_succ'] at h)
    have hbyte : (UInt8.ofNat n).toNat = n % 256 := UInt8.toNat_ofNat' ..
    unfold value at ih ⊢
    rw [bigEndian, List.foldl_append, ih hdiv, List.foldl_cons, List.foldl_nil, hbyte]
    omega

def readBigEndian (k : ℕ) : Reader UInt8 ℕ := do
  let bytes ← take k
  pure (value bytes)

theorem reads_bigEndian {k n : ℕ} (h : n < 256 ^ k) :
    Reads (readBigEndian k) (bigEndian k n) n :=
  ((reads_take (length_bigEndian k n)).map value).of_eq rfl (value_bigEndian h)

end Wire
