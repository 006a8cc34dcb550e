import DroidVnc.Lib.CString
import DroidVnc.Lib.Decimal
import DroidVnc.Ipc.Control

/-! The option loop of `main`. Arguments are C strings, given without terminators. An
option is recognised by its second character; most take the next argument, whether
there is one or not. -/

namespace DroidVnc.Startup

def chr (c : Char) : UInt8 := c.toNat.toUInt8

inductive Method
  | auto
  | framebuffer
  | adb
  | gralloc
  | flinger
  deriving DecidableEq, Repr

structure Config where
  vncPassword : List UInt8 := []
  framebufferDevice : List UInt8 := bytes "/dev/graphics/fb0"
  displayRotate180 : Bool := false
  vncPort : ℤ := 5901
  rotation : ℤ := 0
  scaling : ℤ := 100
  rhost : Option (List UInt8) := none
  rport : ℤ := 5500
  method : Method := .auto
  deriving DecidableEq, Repr

/-- Why there are no settings: the loop ends with the usage text or by using `argv[argc]`, or
it has written beyond a buffer on its way. -/
inductive Stop
  | usage
  | nullArgument
  | overrun
  deriving DecidableEq, Repr

/-- `strcpy` into a buffer of the given size, which takes the terminator as well. -/
def strcpy (size : ℕ) (s : List UInt8) : Except Stop (List UInt8) :=
  if s.length < size then .ok s else .error .overrun

/-- The port for a number behind the host: small ones count displays, and the sign is
dropped. -/
def reversePort (r : ℤ) : ℤ := if r < 0 then (-r).bmod (2 ^ 32) else if r < 20 then 5500 + r else r

def extractReverseHostPort (str : List UInt8) (c : Config) : Config :=
  match CString.strrchr (chr ':') str with
  | some (host, port) => { c with rhost := some host, rport := reversePort (Decimal.atoi port) }
  | none => { c with rhost := some str }

def setRotation (r : ℤ) (c : Config) : Config :=
  if r = 0 ∨ r = 90 ∨ r = 180 ∨ r = 270 then { c with rotation := r } else c

def setScaling (r : ℤ) (c : Config) : Config :=
  { c with scaling := if 1 ≤ r ∧ r ≤ 150 then r else 100 }

def setMethod (s : List UInt8) (c : Config) : Config :=
  if s = bytes "adb" then { c with method := .adb }
  else if s = bytes "fb" then { c with method := .framebuffer }
  else if s = bytes "gralloc" then { c with method := .gralloc }
  else if s = bytes "flinger" then { c with method := .flinger }
  else c

/-- The options that use the next argument: what they do with it, by their letter. -/
def setting (letter : UInt8) : Option (List UInt8 → Config → Except Stop Config) :=
  if letter = chr 'p' then some fun s c => (strcpy 256 s).map fun p => { c with vncPassword := p }
  else if letter = chr 'f' then
    some fun s c => (strcpy 256 s).map fun d => { c with framebufferDevice := d }
  else if letter = chr 'P' then some fun s c => .ok { c with vncPort := Decimal.atoi s }
  else if letter = chr 'r' then some fun s c => .ok (setRotation (Decimal.atoi s) c)
  else if letter = chr 's' then some fun s c => .ok (setScaling (Decimal.atoi s) c)
  else if letter = chr 'R' then some fun s c => .ok (extractReverseHostPort s c)
  else if letter = chr 'm' then some fun s c => .ok (setMethod s c)
  else none

/-- The letter of an option, `*(argv[i] + 1)`. -/
def optionLetter : List UInt8 → Option UInt8
  | [] => none
  | b :: s => if b = chr '-' then some (s.headD 0) else none

/-- One turn of the loop, with the next argument; the flag says whether `i` has been
moved on to that one. -/
def switch (arg : List UInt8) (next : Option (List UInt8)) (c : Config) :
    Except Stop (Config × Bool) :=
  match optionLetter arg with
  | none => .ok (c, false)
  | some letter =>
    if letter = chr 'h' then .error .usage
    else if letter = chr 'z' then .ok ({ c with displayRotate180 := true }, true)
    else match setting letter, next with
      | none, _ => .ok (c, false)
      | some _, none => .error .nullArgument
      | some f, some s => (f s c).map fun c' => (c', true)

def optionLoop : List (List UInt8) → Config → Except Stop Config
  | [], c => .ok c
  | [arg], c => (switch arg none c).map Prod.fst
  | arg :: next :: l, c =>
    match switch arg (some next) c with
    | .ok (c', true) => optionLoop l c'
    | .ok (c', false) => optionLoop (next :: l) c'
    -- the copy does not end the loop, but the globals are not known any more
    | .error .overrun => (optionLoop l c).bind fun _ => .error .overrun
    | .error e => .error e

/-! ### Turns and runs of the loop -/

/-- What comes after an option: it may have overrun a buffer, or ended the loop. -/
def goOn (rest : Config → Except Stop Config) (c : Config) :
    Except Stop Config → Except Stop Config
  | .ok c' => rest c'
  | .error .overrun => (rest c).bind fun _ => .error .overrun
  | .error e => .error e

/-- After an overrun there are no settings. -/
theorem bind_overrun_ne_ok {r : Except Stop Config} {c : Config} :
    (r.bind fun _ => .error .overrun) ≠ .ok c := by
  cases r <;> simp [Except.bind]

/-- An option with its argument. -/
theorem optionLoop_setting {letter : UInt8} {f : List UInt8 → Config → Except Stop Config}
    (hf : setting letter = some f) (hh : letter ≠ chr 'h') (hz : letter ≠ chr 'z')
    {arg : List UInt8} (ha : optionLetter arg = some letter) (s : List UInt8)
    (l : List (List UInt8)) (c : Config) :
    optionLoop (arg :: s :: l) c = goOn (optionLoop l) c (f s c) := by
  rw [optionLoop, switch, ha]
  simp only [if_neg hh, if_neg hz, hf]
  cases f s c with
  | ok c' => rfl
  | error e => cases e <;> rfl

theorem strcpy_map_eq_ok {size : ℕ} {s : List UInt8} {g : List UInt8 → Config} {c : Config} :
    (strcpy size s).map g = .ok c ↔ s.length < size ∧ g s = c := by
  unfold strcpy
  split_ifs with h
  · change Except.ok (g s) = Except.ok c ↔ _
    rw [Except.ok.injEq]
    exact (and_iff_right h).symm
  · exact iff_of_false nofun fun hlt => h hlt.1

/-- What an option can do with its argument. -/
theorem setting_cases {letter : UInt8} {f : List UInt8 → Config → Except Stop Config}
    (hf : setting letter = some f) {s : List UInt8} {c c' : Config} (h : f s c = .ok c') :
    s.length < 256 ∧ { c with vncPassword := s } = c' ∨
      s.length < 256 ∧ { c with framebufferDevice := s } = c' ∨
      { c with vncPort := Decimal.atoi s } = c' ∨ setRotation (Decimal.atoi s) c = c' ∨
      setScaling (Decimal.atoi s) c = c' ∨ extractReverseHostPort s c = c' ∨
      setMethod s c = c' := by
  unfold setting at hf
  split_ifs at hf <;> cases hf
  · exact Or.inl (strcpy_map_eq_ok.mp h)
  · exact Or.inr (Or.inl (strcpy_map_eq_ok.mp h))
  all_goals have h := Except.ok.inj h; simp [h]

section Letters

variable (s : List UInt8) (l : List (List UInt8)) (c : Config)

theorem optionLoop_p : optionLoop (bytes "-p" :: s :: l) c =
    goOn (optionLoop l) c ((strcpy 256 s).map fun p => { c with vncPassword := p }) := by
  have hp : setting (chr 'p') = some fun s c =>
    (strcpy 256 s).map fun p => { c with vncPassword := p } := rfl
  exact optionLoop_setting hp (by decide) (by decide) rfl s l c

theorem optionLoop_r :
    optionLoop (bytes "-r" :: s :: l) c = optionLoop l (setRotation (Decimal.atoi s) c) := by
  have hr : setting (chr 'r') = some fun s c => .ok (setRotation (Decimal.atoi s) c) := rfl
  exact optionLoop_setting hr (by decide) (by decide) rfl s l c

theorem optionLoop_s :
    optionLoop (bytes "-s" :: s :: l) c = optionLoop l (setScaling (Decimal.atoi s) c) := by
  have hs : setting (chr 's') = some fun s c => .ok (setScaling (Decimal.atoi s) c) := rfl
  exact optionLoop_setting hs (by decide) (by decide) rfl s l c

theorem optionLoop_P : optionLoop (bytes "-P" :: s :: l) c =
    optionLoop l { c with vncPort := Decimal.atoi s } := by
  have hP : setting (chr 'P') = some fun s c => .ok { c with vncPort := Decimal.atoi s } := rfl
  exact optionLoop_setting hP (by decide) (by decide) rfl s l c

theorem optionLoop_R :
    optionLoop (bytes "-R" :: s :: l) c = optionLoop l (extractReverseHostPort s c) := by
  have hR : setting (chr 'R') = some fun s c => .ok (extractReverseHostPort s c) := rfl
  exact optionLoop_setting hR (by decide) (by decide) rfl s l c

theorem optionLoop_m : optionLoop (bytes "-m" :: s :: l) c = optionLoop l (setMethod s c) := by
  have hm : setting (chr 'm') = some fun s c => .ok (setMethod s c) := rfl
  exact optionLoop_setting hm (by decide) (by decide) rfl s l c

end Letters

/-- What one turn can do: nothing, turn the display, or set something from the next
argument. -/
theorem switch_cases {arg : List UInt8} {next : Option (List UInt8)} {c c' : Config} {b : Bool}
    (h : switch arg next c = .ok (c', b)) :
    c' = c ∨ c' = { c with displayRotate180 := true } ∨
      ∃ letter f s, setting letter = some f ∧ next = some s ∧ f s c = .ok c' := by
  unfold switch at h
  cases ha : optionLetter arg with
  | none =>
    rw [ha] at h
    cases h
    exact Or.inl rfl
  | some letter =>
    simp only [ha] at h
    split_ifs at h
    · cases h
      exact Or.inr (Or.inl rfl)
    · cases hf : setting letter with
      | none =>
        rw [hf] at h
        cases h
        exact Or.inl rfl
      | some f =>
        rw [hf] at h
        cases next with
        | none => cases h
        | some s =>
          change (f s c).map _ = _ at h
          cases hs : f s c with
          | error e =>
            rw [hs] at h
            cases h
          | ok d =>
            rw [hs] at h
            cases h
            exact Or.inr (Or.inr ⟨letter, f, s, hf, rfl, hs⟩)

section Preserves

variable {P : Config → Prop} {Q : List UInt8 → Prop}
  (hset : ∀ letter f s c c', setting letter = some f → Q s → P c → f s c = .ok c' → P c')
  (hturn : ∀ c, P c → P { c with displayRotate180 := true })

include hset hturn

theorem switch_preserves {arg : List UInt8} {next : Option (List UInt8)}
    (hnext : ∀ s, next = some s → Q s) {c c' : Config} {b : Bool} (hc : P c)
    (h : switch arg next c = .ok (c', b)) : P c' := by
  obtain rfl | rfl | ⟨letter, f, s, hf, hs, hok⟩ := switch_cases h
  · exact hc
  · exact hturn c hc
  · exact hset letter f s c c' hf (hnext s hs) hc hok

/-- What every option preserves, the loop preserves. -/
theorem optionLoop_preserves {l : List (List UInt8)} (hl : ∀ s ∈ l, Q s) {c c' : Config}
    (hc : P c) (h : optionLoop l c = .ok c') : P c' := by
  induction l, c using optionLoop.induct with
  | case1 c =>
    cases h
    exact hc
  | case2 arg c =>
    rw [optionLoop] at h
    cases hs : switch arg none c with
    | error e =>
      rw [hs] at h
      cases h
    | ok r =>
      rw [hs] at h
      cases h
      exact switch_preserves hset hturn (by simp) hc hs
  | case3 arg next l c d hs ih =>
    rw [optionLoop, hs] at h
    have hd : P d := switch_preserves hset hturn (by simp_all) hc hs
    exact ih (fun s hmem => hl s (by simp [hmem])) hd h
  | case4 arg next l c d hs ih =>
    rw [optionLoop, hs] at h
    have hd : P d := switch_preserves hset hturn (by simp_all) hc hs
    exact ih (fun s hmem => hl s (by simp [hmem])) hd h
  | case5 arg next l c hs =>
    rw [optionLoop, hs] at h
    exact absurd h bind_overrun_ne_ok
  | case6 arg next l c e he hs =>
    rw [optionLoop, hs] at h
    cases e with
    | overrun => exact (he rfl).elim
    | usage => cases h
    | nullArgument => cases h

end Preserves

end DroidVnc.Startup
