import Mathlib.Data.List.Basic

/-! The key map `keysym2scancode`: printable characters through five tables, other
keysyms through a `switch`. A keysym stands for a scancode with its modifiers, or
for one of three commands. -/

namespace DroidVnc

/-- Codes of `<linux/input.h>` that the daemon writes by name. -/
def BTN_TOUCH : ℕ := 0x14a

def KEY_END : ℕ := 107

def KEY_HOME : ℕ := 102

/-- q,w,e,r,t,y,u,i,o,p,a,s,d,f,g,h,j,k,l,z,x,c,v,b,n,m -/
def qwerty : List ℕ :=
  [30, 48, 46, 32, 18, 33, 34, 35, 23, 36, 37, 38, 50, 49, 24, 25, 16, 19, 31, 20, 22, 47, 17, 45,
    21, 44]

def spec1 : List ℕ := [57, 2, 40, 4, 5, 6, 8, 40, 10, 11, 9, 13, 51, 12, 52, 52]

def spec1sh : List ℕ := [0, 1, 1, 1, 1, 1, 1, 0, 1, 1, 1, 1, 0, 0, 0, 1]

def spec2 : List ℕ := [39, 39, 227, 13, 228, 53, 215]

def spec2sh : List ℕ := [1, 0, 1, 1, 1, 1, 0]

def spec3 : List ℕ := [26, 43, 27, 7, 12, 399]

def spec3sh : List ℕ := [0, 0, 0, 1, 1, 0]

def spec4 : List ℕ := [26, 43, 27, 215, 14]

def spec4sh : List ℕ := [1, 1, 1, 1, 0]

/-- What a keysym stands for: a scancode with the values left in `*sh` and `*alt`
(code 0 for none), or a command. -/
inductive Keysym
  | scancode (code sh alt : ℕ)
  /-- F4: `rotate(-1)` when the key goes down. -/
  | rotate
  /-- F11: `rfbShutdownServer` closes the sockets; the clients go one by one afterwards. -/
  | shutdown
  /-- F12: `exit(0)`. -/
  | exit
  deriving DecidableEq, Repr

/-- The code that `keysym2scancode` returns; the commands return 0. -/
def Keysym.code : Keysym → ℕ
  | scancode code _ _ => code
  | _ => 0

/-- The cases of the `switch`, in its order; a case without a `return` falls
through to the next one that has it, and `real` is 1. -/
def keysymCases : List (ℕ × Keysym) :=
  [(0xff08, .scancode 14 0 0), (0xff09, .scancode 15 0 0),
    (1, .scancode 34 0 1), (3, .scancode 46 0 1), (4, .scancode 32 0 1), (18, .scancode 31 0 1),
    (0xff0d, .scancode 28 0 0), (0xff1b, .scancode 158 0 0),
    (0xff51, .scancode 105 0 0), (0xff53, .scancode 106 0 0), (0xff54, .scancode 108 0 0),
    (0xff52, .scancode 103 0 0), (0xff50, .scancode KEY_HOME 0 0),
    (0xffc8, .shutdown), (0xffc9, .exit), (0xffc1, .rotate),
    (0xffff, .scancode 158 0 0), (0xff55, .scancode 229 0 0), (0xffcf, .scancode 127 0 0),
    (0xffe3, .scancode 127 0 0), (0xff56, .scancode 61 0 0), (0xff57, .scancode 107 0 0),
    (0xffc2, .scancode 211 0 0), (0xffc3, .scancode 212 0 0), (0xffc4, .scancode 150 0 0),
    (0xffc5, .scancode 155 0 0),
    (50081, .scancode 48 0 1), (225, .scancode 48 0 1),
    (50049, .scancode 48 1 1), (193, .scancode 48 1 1),
    (50089, .scancode 18 0 1), (233, .scancode 18 0 1),
    (50057, .scancode 18 1 1), (201, .scancode 18 1 1),
    (50093, .scancode 36 0 1), (0xffbf, .scancode 36 0 1),
    (50061, .scancode 36 1 1), (205, .scancode 36 1 1),
    (50099, .scancode 16 0 1), (243, .scancode 16 0 1),
    (50067, .scancode 16 1 1), (211, .scancode 16 1 1),
    (50102, .scancode 25 0 1), (246, .scancode 25 0 1),
    (50070, .scancode 25 1 1), (214, .scancode 25 1 1),
    (50577, .scancode 19 0 1), (245, .scancode 19 0 1),
    (50576, .scancode 19 1 1), (213, .scancode 19 1 1),
    (50106, .scancode 17 1 1), (50074, .scancode 17 1 1), (218, .scancode 17 1 1),
    (50108, .scancode 47 0 1), (252, .scancode 47 0 1),
    (50076, .scancode 47 1 1), (220, .scancode 47 1 1),
    (50609, .scancode 45 0 1), (251, .scancode 45 0 1),
    (50608, .scancode 45 1 1), (219, .scancode 45 1 1)]

/-- A character in a table of scancodes and a table of shifts. -/
def ofTable (codes shifts : List ℕ) (k : ℕ) : Keysym :=
  .scancode (codes.getD k 0) (shifts.getD k 0) 0

/-- `keysym2scancode(down, c, cl, &sh, &alt)`, with `sh` and `alt` 0 before. -/
def keysym2scancode (c : ℕ) : Keysym :=
  if 97 ≤ c ∧ c ≤ 122 then .scancode (qwerty.getD (c - 97) 0) 0 0
  else if 65 ≤ c ∧ c ≤ 90 then .scancode (qwerty.getD (c - 65) 0) 1 0
  else if 49 ≤ c ∧ c ≤ 57 then .scancode (c - 49 + 2) 0 0
  else if c = 48 then .scancode 11 0 0
  else if 32 ≤ c ∧ c ≤ 47 then ofTable spec1 spec1sh (c - 32)
  else if 58 ≤ c ∧ c ≤ 64 then ofTable spec2 spec2sh (c - 58)
  else if 91 ≤ c ∧ c ≤ 96 then ofTable spec3 spec3sh (c - 91)
  else if 123 ≤ c ∧ c ≤ 127 then ofTable spec4 spec4sh (c - 123)
  else (keysymCases.lookup c).getD (.scancode 0 0 0)

/-- Every code of a table keeps a property that its entries and 0 have. -/
theorem getD_of_forall {P : ℕ → Prop} {l : List ℕ} (h : ∀ x ∈ l, P x) (h0 : P 0) (k : ℕ) :
    P (l.getD k 0) := by
  rw [List.getD_eq_getElem?_getD]
  cases hk : l[k]? with
  | none => exact h0
  | some x => exact h x (List.mem_of_getElem? hk)

theorem code_lookup_of_forall {P : ℕ → Prop} {l : List (ℕ × Keysym)} (h : ∀ p ∈ l, P p.2.code)
    (h0 : P 0) (c : ℕ) : P ((l.lookup c).getD (.scancode 0 0 0)).code := by
  cases hk : l.lookup c with
  | none => exact h0
  | some x =>
    obtain ⟨l₁, l₂, rfl, -⟩ := List.lookup_eq_some_iff.mp hk
    exact h (c, x) (by simp)

/-- No key is mapped to the touch button. -/
theorem keysym2scancode_code_ne (c : ℕ) : (keysym2scancode c).code ≠ BTN_TOUCH := by
  have htable : ∀ l : List ℕ, (∀ x ∈ l, x ≠ BTN_TOUCH) → ∀ k, l.getD k 0 ≠ BTN_TOUCH :=
    fun l hl k => getD_of_forall hl (by decide) k
  unfold keysym2scancode ofTable
  split_ifs
  · exact htable qwerty (by decide) _
  · exact htable qwerty (by decide) _
  · simp only [Keysym.code, BTN_TOUCH]
    omega
  · decide
  · exact htable spec1 (by decide) _
  · exact htable spec2 (by decide) _
  · exact htable spec3 (by decide) _
  · exact htable spec4 (by decide) _
  · exact code_lookup_of_forall (P := fun x => x ≠ BTN_TOUCH) (by decide) (by decide) c

end DroidVnc
