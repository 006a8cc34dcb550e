import DroidVnc.Startup.Options

/-! The grammar of the options. Which options the loop takes, and with what argument,
depends on the command line alone: reading it and setting the globals are separate.
Each option of the usage text has its effect in whatever order they are given, but for
`-z`, which takes an argument that it does not use: the option behind it is lost. At
the end of the command line an option that lacks its argument takes `argv[argc]`. -/

namespace DroidVnc.Startup

/-! ### The options that use an argument -/

inductive Setting
  | f
  | m
  | p
  | P
  | r
  | R
  | s
  deriving DecidableEq, Repr

namespace Setting

def letter : Setting → UInt8
  | f => chr 'f'
  | m => chr 'm'
  | p => chr 'p'
  | P => chr 'P'
  | r => chr 'r'
  | R => chr 'R'
  | s => chr 's'

def ofLetter (letter : UInt8) : Option Setting :=
  if letter = chr 'p' then some p
  else if letter = chr 'f' then some f
  else if letter = chr 'P' then some P
  else if letter = chr 'r' then some r
  else if letter = chr 's' then some s
  else if letter = chr 'R' then some R
  else if letter = chr 'm' then some m
  else none

@[simp] theorem ofLetter_letter (x : Setting) : ofLetter x.letter = some x := by
  cases x <;> rfl

theorem letter_ne_h (x : Setting) : x.letter ≠ chr 'h' := by
  cases x <;> decide

theorem letter_ne_z (x : Setting) : x.letter ≠ chr 'z' := by
  cases x <;> decide

def assign : Setting → List UInt8 → Config → Config
  | f, v, c => { c with framebufferDevice := v }
  | m, v, c => setMethod v c
  | p, v, c => { c with vncPassword := v }
  | P, v, c => { c with vncPort := Decimal.atoi v }
  | r, v, c => setRotation (Decimal.atoi v) c
  | R, v, c => extractReverseHostPort v c
  | s, v, c => setScaling (Decimal.atoi v) c

/-- The argument fits the buffer that it is copied to, if it is copied. -/
def Fits : Setting → List UInt8 → Prop
  | f, v => v.length < 256
  | p, v => v.length < 256
  | _, _ => True

instance (x : Setting) (v : List UInt8) : Decidable (x.Fits v) := by
  cases x <;> unfold Fits <;> infer_instance

def run (x : Setting) (v : List UInt8) (c : Config) : Except Stop Config :=
  if x.Fits v then .ok (x.assign v c) else .error .overrun

theorem strcpy_map (size : ℕ) (v : List UInt8) (g : List UInt8 → Config) :
    (strcpy size v).map g = if v.length < size then .ok (g v) else .error .overrun := by
  unfold strcpy
  split_ifs <;> rfl

/-- The options are those of the `switch`. -/
theorem setting_eq (letter : UInt8) : setting letter = (ofLetter letter).map run := by
  unfold setting ofLetter
  split_ifs
  · refine congrArg some (funext fun v => funext fun c => ?_)
    exact strcpy_map 256 v fun p => { c with vncPassword := p }
  · refine congrArg some (funext fun v => funext fun c => ?_)
    exact strcpy_map 256 v fun d => { c with framebufferDevice := d }
  · rfl
  · rfl
  · rfl
  · rfl
  · rfl
  · rfl

end Setting

/-! ### Reading and setting -/

/-- An option as the loop takes it, with the argument behind it. -/
inductive Taken
  | help
  | turn
  | set (x : Setting) (value : Option (List UInt8))
  deriving DecidableEq, Repr

/-- The option with a letter, if the `switch` has a case for it. -/
def take (next : Option (List UInt8)) (letter : UInt8) : Option Taken :=
  if letter = chr 'h' then some .help
  else if letter = chr 'z' then some .turn
  else (Setting.ofLetter letter).map fun x => .set x next

/-- The options that the loop takes, up to a `-h`. -/
def taken : List (List UInt8) → List Taken
  | [] => []
  | [arg] => ((optionLetter arg).bind (take none)).toList
  | arg :: next :: l =>
    match (optionLetter arg).bind (take (some next)) with
    | none => taken (next :: l)
    | some .help => [.help]
    | some t => t :: taken l

def Taken.run (c : Config) : Taken → Except Stop Config
  | help => .error .usage
  | turn => .ok { c with displayRotate180 := true }
  | set _ none => .error .nullArgument
  | set x (some v) => x.run v c

def runAll : List Taken → Config → Except Stop Config
  | [], c => .ok c
  | t :: l, c => goOn (runAll l) c (t.run c)

/-- A turn of the loop passes over an argument or takes an option. -/
theorem switch_eq (arg : List UInt8) (next : Option (List UInt8)) (c : Config) :
    switch arg next c =
      match (optionLetter arg).bind (take next) with
      | none => .ok (c, false)
      | some t => (t.run c).map fun c' => (c', true) := by
  unfold switch
  cases optionLetter arg with
  | none => rfl
  | some letter =>
    dsimp only [Option.bind_some, take]
    split_ifs
    · rfl
    · rfl
    · rw [Setting.setting_eq]
      cases Setting.ofLetter letter with
      | none => rfl
      | some x => cases next <;> rfl

theorem optionLoop_eq (args : List (List UInt8)) (c : Config) :
    optionLoop args c = runAll (taken args) c := by
  induction args using taken.induct generalizing c with
  | case1 => rfl
  | case2 arg =>
    rw [optionLoop, taken, switch_eq]
    cases ht : (optionLetter arg).bind (take none) with
    | none => rfl
    | some t =>
      show ((t.run c).map fun c' => (c', true)).map Prod.fst = goOn (runAll []) c (t.run c)
      cases hr : t.run c with
      | ok c' => rfl
      | error e => cases e <;> rfl
  | case3 arg next l h ih =>
    rw [optionLoop, taken, switch_eq, h]
    exact ih c
  | case4 arg next l h =>
    rw [optionLoop, taken, switch_eq, h]
    rfl
  | case5 arg next l t hne h ih =>
    have htaken : taken (arg :: next :: l) = t :: taken l := by
      rw [taken, h]
      cases t with
      | help => exact absurd rfl hne
      | turn => rfl
      | set x value => rfl
    rw [htaken, optionLoop, switch_eq, h]
    dsimp only [runAll]
    cases t.run c with
    | ok c' => exact ih c'
    | error e =>
      cases e with
      | overrun => exact congrArg (fun r => Except.bind r fun _ => .error .overrun) (ih c)
      | usage => rfl
      | nullArgument => rfl

/-! ### An option without its argument -/

/-- The copy that the option makes stays in its buffer. -/
def Taken.Fits : Taken → Prop
  | set x (some v) => x.Fits v
  | _ => True

/-- The options end with one that lacks its argument. -/
def Lacking : List Taken → Prop
  | [] => False
  | .set _ none :: _ => True
  | t :: l => t ≠ .help ∧ Lacking l

theorem Taken.run_set_some (x : Setting) (v : List UInt8) (c : Config) (l : List Taken) :
    runAll (.set x (some v) :: l) c =
      if x.Fits v then runAll l (x.assign v c)
      else (runAll l c).bind fun _ => .error .overrun := by
  show goOn (runAll l) c (x.run v c) = _
  unfold Setting.run
  split_ifs <;> rfl

theorem bind_overrun_eq_nullArgument {r : Except Stop Config} :
    (r.bind fun _ => (.error .overrun : Except Stop Config)) = .error .nullArgument ↔
      r = .error .nullArgument := by
  cases r with
  | ok c => exact iff_of_false (by simp [Except.bind]) (by simp)
  | error e => rfl

/-- `argv[argc]` is used exactly when the last option that the loop comes to lacks its
argument, whatever has been copied before. -/
theorem runAll_eq_nullArgument {l : List Taken} {c : Config} :
    runAll l c = .error .nullArgument ↔ Lacking l := by
  induction l generalizing c with
  | nil => exact iff_of_false nofun id
  | cons t l ih =>
    cases t with
    | help => exact iff_of_false nofun fun h => h.1 rfl
    | turn =>
      show runAll l { c with displayRotate180 := true } = _ ↔ _
      rw [ih]
      exact ⟨fun h => ⟨nofun, h⟩, fun h => h.2⟩
    | set x value =>
      cases value with
      | none => exact iff_of_true rfl trivial
      | some v =>
        have hrest : Lacking (.set x (some v) :: l) ↔ Lacking l :=
          ⟨fun h => h.2, fun h => ⟨nofun, h⟩⟩
        rw [Taken.run_set_some, hrest]
        split_ifs
        · exact ih
        · exact bind_overrun_eq_nullArgument.trans ih

/-! ### Options with distinct letters -/

theorem setRotation_eq (a : ℤ) (c : Config) : setRotation a c =
    { c with rotation := if a = 0 ∨ a = 90 ∨ a = 180 ∨ a = 270 then a else c.rotation } := by
  unfold setRotation
  split_ifs <;> rfl

/-- The method with a name, or the one there was. -/
def methodOf (v : List UInt8) (old : Method) : Method :=
  if v = bytes "adb" then .adb
  else if v = bytes "fb" then .framebuffer
  else if v = bytes "gralloc" then .gralloc
  else if v = bytes "flinger" then .flinger
  else old

theorem setMethod_eq (v : List UInt8) (c : Config) :
    setMethod v c = { c with method := methodOf v c.method } := by
  unfold setMethod methodOf
  split_ifs <;> rfl

def hostOf (v : List UInt8) : List UInt8 :=
  match CString.strrchr (chr ':') v with
  | some (host, _) => host
  | none => v

def portOf (v : List UInt8) (old : ℤ) : ℤ :=
  match CString.strrchr (chr ':') v with
  | some (_, port) => reversePort (Decimal.atoi port)
  | none => old

theorem extractReverseHostPort_fields (v : List UInt8) (c : Config) :
    extractReverseHostPort v c =
      { c with rhost := some (hostOf v), rport := portOf v c.rport } := by
  unfold extractReverseHostPort hostOf portOf
  cases CString.strrchr (chr ':') v <;> rfl

namespace Setting

theorem assign_comm {x y : Setting} (h : x ≠ y) (v w : List UInt8) (c : Config) :
    x.assign v (y.assign w c) = y.assign w (x.assign v c) := by
  cases x <;> cases y <;> first
    | exact absurd rfl h
    | simp only [assign, setRotation_eq, setMethod_eq, extractReverseHostPort_fields, setScaling]

/-- Whether an option changes anything does not depend on another one. -/
theorem assign_eq_self_iff {x y : Setting} (h : x ≠ y) (v w : List UInt8) (c : Config) :
    x.assign v (y.assign w c) = y.assign w c ↔ x.assign v c = c := by
  cases c
  cases x <;> cases y <;> first
    | exact absurd rfl h
    | simp only [assign, setRotation_eq, setMethod_eq, extractReverseHostPort_fields, setScaling,
        Config.mk.injEq, true_and, and_true]

theorem assign_turn (x : Setting) (v : List UInt8) (c : Config) :
    x.assign v { c with displayRotate180 := true } =
      { x.assign v c with displayRotate180 := true } := by
  cases x <;> simp only [assign, setRotation_eq, setMethod_eq, extractReverseHostPort_fields,
    setScaling]

theorem assign_turn_eq_self_iff (x : Setting) (v : List UInt8) (c : Config) :
    x.assign v { c with displayRotate180 := true } = { c with displayRotate180 := true } ↔
      x.assign v c = c := by
  cases c
  cases x <;> simp only [assign, setRotation_eq, setMethod_eq, extractReverseHostPort_fields,
    setScaling, Config.mk.injEq, true_and, and_true]

end Setting

/-! ### What the usage text says -/

/-- The method that a name stands for. The usage text lists `gb` for the devices that the
user interface offers SurfaceFlinger for. -/
def documentedMethod (v : List UInt8) (old : Method) : Method :=
  if v = bytes "gb" then .flinger else methodOf v old

namespace Setting

/-- The effect that the option is to have. A value that the usage text does not name has
the one that the program gives it. -/
def effect : Setting → List UInt8 → Config → Config
  | f, v, c => { c with framebufferDevice := v }
  | m, v, c => { c with method := documentedMethod v c.method }
  | p, v, c => { c with vncPassword := v }
  | P, v, c => { c with vncPort := Decimal.atoi v }
  | r, v, c =>
    { c with
      rotation := if Decimal.atoi v ∈ [0, 90, 180, 270] then Decimal.atoi v else c.rotation }
  | R, v, c => { c with rhost := some (hostOf v), rport := portOf v c.rport }
  | s, v, c =>
    { c with scaling := if 1 ≤ Decimal.atoi v ∧ Decimal.atoi v ≤ 150 then Decimal.atoi v else 100 }

def Known : Setting → List UInt8 → Prop
  | m, v => v ≠ bytes "gb"
  | _, _ => True

instance (x : Setting) (v : List UInt8) : Decidable (x.Known v) := by
  cases x <;> unfold Known <;> infer_instance

theorem assign_eq_effect {x : Setting} {v : List UInt8} (h : x.Known v) (c : Config) :
    x.assign v c = x.effect v c := by
  cases x with
  | m =>
    have hv : v ≠ bytes "gb" := h
    rw [assign, setMethod_eq, effect, documentedMethod, if_neg hv]
  | r => simp only [assign, setRotation_eq, effect, List.mem_cons, List.not_mem_nil, or_false]
  | R => exact extractReverseHostPort_fields v c
  | f => rfl
  | p => rfl
  | P => rfl
  | s => rfl

end Setting

/-! ### Command lines of the usage text -/

/-- An option of the usage text, with its value. -/
inductive Opt
  | set (x : Setting) (v : List UInt8)
  | z
  deriving DecidableEq, Repr

namespace Opt

def letter : Opt → UInt8
  | set x _ => x.letter
  | z => chr 'z'

def render : Opt → List (List UInt8)
  | set x v => [[chr '-', x.letter], v]
  | z => [[chr '-', chr 'z']]

def assign : Opt → Config → Config
  | set x v, c => x.assign v c
  | z, c => { c with displayRotate180 := true }

def effect : Opt → Config → Config
  | set x v, c => x.effect v c
  | z, c => { c with displayRotate180 := true }

/-- The copy that the option makes stays in its buffer. -/
def Fits : Opt → Prop
  | set x v => x.Fits v
  | z => True

def Known : Opt → Prop
  | set x v => x.Known v
  | z => True

theorem assign_comm {a b : Opt} (h : a.letter ≠ b.letter) (c : Config) :
    a.assign (b.assign c) = b.assign (a.assign c) := by
  cases a with
  | z =>
    cases b with
    | z => rfl
    | set y w => exact (y.assign_turn w c).symm
  | set x v =>
    cases b with
    | z => exact x.assign_turn v c
    | set y w => exact Setting.assign_comm (fun hxy => h (congrArg Setting.letter hxy)) v w c

/-- Whether an option changes anything does not depend on another one. -/
theorem assign_eq_self_iff {x : Setting} {b : Opt} (h : x.letter ≠ b.letter) (v : List UInt8)
    (c : Config) : x.assign v (b.assign c) = b.assign c ↔ x.assign v c = c := by
  cases b with
  | z => exact x.assign_turn_eq_self_iff v c
  | set y w =>
    exact Setting.assign_eq_self_iff (fun hxy => h (congrArg Setting.letter hxy)) v w c

end Opt

def commandLine (opts : List Opt) : List (List UInt8) := opts.flatMap Opt.render

def configured (opts : List Opt) (c : Config) : Config := opts.foldl (fun c o => o.effect c) c

def assigned (opts : List Opt) (c : Config) : Config := opts.foldl (fun c o => o.assign c) c

@[simp] theorem assigned_append (l m : List Opt) (c : Config) :
    assigned (l ++ m) c = assigned m (assigned l c) := List.foldl_append

theorem assigned_perm {l m : List Opt} (h : l.Perm m) (hl : (l.map Opt.letter).Nodup)
    (c : Config) : assigned l c = assigned m c := by
  apply h.foldl_eq'
  intro a ha b hb c
  by_cases hab : a.letter = b.letter
  · rw [List.inj_on_of_nodup_map hl ha hb hab]
  · exact Opt.assign_comm (Ne.symm hab) c

theorem assigned_eq_self_iff {x : Setting} {v : List UInt8} {l : List Opt}
    (h : x.letter ∉ l.map Opt.letter) (c : Config) :
    x.assign v (assigned l c) = assigned l c ↔ x.assign v c = c := by
  induction l generalizing c with
  | nil => exact Iff.rfl
  | cons b l ih =>
    rw [List.map_cons, List.mem_cons, not_or] at h
    exact (ih h.2 (b.assign c)).trans (Opt.assign_eq_self_iff h.1 v c)

/-! ### The loop on them -/

theorem bind_take_letter (x : Setting) (next : Option (List UInt8)) :
    (optionLetter [chr '-', x.letter]).bind (take next) = some (.set x next) := by
  show take next x.letter = _
  rw [take, if_neg x.letter_ne_h, if_neg x.letter_ne_z, Setting.ofLetter_letter]
  rfl

theorem optionLoop_set (x : Setting) (v : List UInt8) (args : List (List UInt8)) (c : Config) :
    optionLoop ([chr '-', x.letter] :: v :: args) c =
      if x.Fits v then optionLoop args (x.assign v c)
      else (optionLoop args c).bind fun _ => .error .overrun := by
  rw [optionLoop, switch_eq, bind_take_letter]
  dsimp only [Taken.run, Setting.run]
  split_ifs <;> rfl

/-- `-z` takes the argument behind it as well. -/
theorem optionLoop_turn (arg : List UInt8) (args : List (List UInt8)) (c : Config) :
    optionLoop ([chr '-', chr 'z'] :: arg :: args) c =
      optionLoop args { c with displayRotate180 := true } := rfl

theorem optionLoop_turn_last (c : Config) :
    optionLoop [[chr '-', chr 'z']] c = .ok { c with displayRotate180 := true } := rfl

/-- Options without `-z` do what they say. -/
theorem optionLoop_append {l : List Opt} (hz : Opt.z ∉ l) (hfits : ∀ o ∈ l, o.Fits)
    (args : List (List UInt8)) (c : Config) :
    optionLoop (commandLine l ++ args) c = optionLoop args (assigned l c) := by
  induction l generalizing c with
  | nil => rfl
  | cons o l ih =>
    cases o with
    | z => exact absurd (List.mem_cons_self) hz
    | set x v =>
      show optionLoop ([chr '-', x.letter] :: v :: (commandLine l ++ args)) c = _
      have hx : x.Fits v := hfits _ List.mem_cons_self
      rw [optionLoop_set, if_pos hx]
      exact ih (fun h => hz (List.mem_cons_of_mem _ h))
        (fun o ho => hfits o (List.mem_cons_of_mem _ ho)) (x.assign v c)

theorem fits_of_optionLoop {l : List Opt} (hz : Opt.z ∉ l) {args : List (List UInt8)}
    {c c' : Config} (h : optionLoop (commandLine l ++ args) c = .ok c') : ∀ o ∈ l, o.Fits := by
  induction l generalizing c with
  | nil => simp
  | cons o l ih =>
    cases o with
    | z => exact absurd (List.mem_cons_self) hz
    | set x v =>
      change optionLoop ([chr '-', x.letter] :: v :: (commandLine l ++ args)) c = _ at h
      rw [optionLoop_set] at h
      split_ifs at h with hx
      swap
      · exact absurd h bind_overrun_ne_ok
      rw [List.forall_mem_cons]
      exact ⟨hx, ih (fun hl => hz (List.mem_cons_of_mem _ hl)) h⟩

/-! ### An option behind `-z` -/

/-- As an argument of its own the value neither prints the usage text nor sets
anything. -/
def Harmless (v : List UInt8) : Prop :=
  ∀ t, (optionLetter v).bind (take none) = some t → t = .turn

/-- The option sets nothing to another value than it has from the start. -/
def Vacuous (x : Setting) (v : List UInt8) : Prop := x.assign v {} = {}

/-- What option a letter stands for does not depend on the argument behind it. -/
theorem take_of_harmless {v : List UInt8} (h : Harmless v) (next : Option (List UInt8)) :
    (optionLetter v).bind (take next) = none ∨ (optionLetter v).bind (take next) = some .turn := by
  unfold Harmless at h
  cases hv : optionLetter v with
  | none => exact Or.inl rfl
  | some letter =>
    rw [hv] at h
    dsimp only [Option.bind_some, take] at h ⊢
    split_ifs at h ⊢ with hh hz
    · exact absurd (h _ rfl) nofun
    · exact Or.inr rfl
    · cases hx : Setting.ofLetter letter with
      | none => exact Or.inl rfl
      | some x =>
        rw [hx] at h
        exact absurd (h _ rfl) nofun

/-- Options that change nothing in `c`, with harmless values. -/
def Idle (l : List Opt) (c : Config) : Prop :=
  ∀ o ∈ l, ∃ x v, o = Opt.set x v ∧ x.Fits v ∧ x.assign v c = c ∧ Harmless v

theorem optionLoop_idle {l : List Opt} {c : Config} (hl : Idle l c) :
    optionLoop (commandLine l) c = .ok c := by
  induction l with
  | nil => rfl
  | cons o l ih =>
    obtain ⟨x, v, rfl, hfits, hsame, -⟩ := hl o List.mem_cons_self
    show optionLoop ([chr '-', x.letter] :: v :: commandLine l) c = _
    rw [optionLoop_set, if_pos hfits, hsame]
    exact ih fun o ho => hl o (List.mem_cons_of_mem _ ho)

/-- Once the display is turned, a harmless value may stand in front of options that
change nothing: at worst it is a `-z` that takes the next option, and leaves its value. -/
theorem optionLoop_lone {l : List Opt} {c : Config} (hturned : c.displayRotate180 = true)
    (hl : Idle l c) {v : List UInt8} (hv : Harmless v) :
    optionLoop (v :: commandLine l) c = .ok c := by
  have hturn : { c with displayRotate180 := true } = c := by
    rw [← hturned]
  induction l generalizing v with
  | nil =>
    show optionLoop [v] c = _
    rw [optionLoop, switch_eq]
    rcases take_of_harmless hv none with h | h
    · rw [h]
      rfl
    · rw [h]
      exact congrArg Except.ok hturn
  | cons o l ih =>
    have hrest : Idle l c := fun o ho => hl o (List.mem_cons_of_mem _ ho)
    obtain ⟨x, w, rfl, hfits, hsame, hw⟩ := hl o List.mem_cons_self
    show optionLoop (v :: [chr '-', x.letter] :: w :: commandLine l) c = _
    rw [optionLoop, switch_eq]
    rcases take_of_harmless hv (some [chr '-', x.letter]) with h | h
    · rw [h]
      show optionLoop ([chr '-', x.letter] :: w :: commandLine l) c = _
      rw [optionLoop_set, if_pos hfits, hsame]
      exact optionLoop_idle hrest
    · rw [h]
      show optionLoop (w :: commandLine l) { c with displayRotate180 := true } = _
      rw [hturn]
      exact ih hrest hw

/-- `-z` is in nobody's way: without it all is well, and with it every other option
changes nothing and has a harmless value. -/
def Unhindered (opts : List Opt) : Prop :=
  Opt.z ∈ opts → ∀ x v, Opt.set x v ∈ opts → Vacuous x v ∧ Harmless v

/-- Every order of the options ends the loop with the globals `c`. -/
def AnyOrder (opts : List Opt) (c : Config) : Prop :=
  ∀ l : List Opt, l.Perm opts → optionLoop (commandLine l) {} = .ok c

theorem nodup_of_perm {l m : List Opt} (h : l.Perm m) (hm : (m.map Opt.letter).Nodup) :
    (l.map Opt.letter).Nodup := (h.map Opt.letter).nodup_iff.mpr hm

/-- Options that change nothing, before and after the turn. -/
theorem idle_of_unhindered {opts l : List Opt} (hfits : ∀ o ∈ opts, o.Fits)
    (hun : ∀ x v, Opt.set x v ∈ opts → Vacuous x v ∧ Harmless v) (hl : ∀ o ∈ l, o ∈ opts)
    (hz : Opt.z ∉ l) {c : Config} (hc : c = {} ∨ c = { displayRotate180 := true }) : Idle l c := by
  intro o ho
  cases o with
  | z => exact absurd ho hz
  | set x v =>
    obtain ⟨hvac, hharm⟩ := hun x v (hl _ ho)
    refine ⟨x, v, rfl, hfits _ (hl _ ho), ?_, hharm⟩
    rcases hc with rfl | rfl
    · exact hvac
    · exact (x.assign_turn_eq_self_iff v {}).mpr hvac

theorem assigned_of_idle {l : List Opt} {c : Config} (h : Idle l c) : assigned l c = c := by
  induction l with
  | nil => rfl
  | cons o l ih =>
    obtain ⟨x, v, rfl, -, hsame, -⟩ := h o List.mem_cons_self
    show assigned l (x.assign v c) = c
    rw [hsame]
    exact ih fun o ho => h o (List.mem_cons_of_mem _ ho)

theorem anyOrder_of_unhindered {opts : List Opt} (hd : (opts.map Opt.letter).Nodup)
    (hfits : ∀ o ∈ opts, o.Fits) (hun : Unhindered opts) :
    AnyOrder opts (assigned opts {}) := by
  intro l hl
  have hld := nodup_of_perm hl hd
  rw [← assigned_perm hl hld]
  by_cases hz : Opt.z ∈ l
  · have hvac := hun (hl.mem_iff.mp hz)
    obtain ⟨l₁, l₂, rfl⟩ := List.append_of_mem hz
    have hz₁ : Opt.z ∉ l₁ := by
      intro h
      rw [List.map_append, List.nodup_append] at hld
      exact hld.2.2 _ (List.mem_map_of_mem h) _ (by simp) rfl
    have hz₂ : Opt.z ∉ l₂ := by
      intro h
      rw [List.map_append, List.map_cons, List.nodup_append, List.nodup_cons] at hld
      exact hld.2.1.1 (List.mem_map_of_mem h)
    have hidle₁ : Idle l₁ {} := idle_of_unhindered hfits hvac
      (fun o ho => hl.mem_iff.mp (by simp [ho])) hz₁ (Or.inl rfl)
    have hidle₂ : Idle l₂ { displayRotate180 := true } := idle_of_unhindered hfits hvac
      (fun o ho => hl.mem_iff.mp (by simp [ho])) hz₂ (Or.inr rfl)
    have hconf : assigned (l₁ ++ Opt.z :: l₂) {} = { displayRotate180 := true } := by
      rw [assigned_append, assigned_of_idle hidle₁]
      exact assigned_of_idle hidle₂
    rw [hconf, commandLine, List.flatMap_append, ← commandLine, optionLoop_append hz₁
      (fun o ho => hfits o (hl.mem_iff.mp (by simp [ho]))), assigned_of_idle hidle₁]
    cases l₂ with
    | nil => exact optionLoop_turn_last {}
    | cons o l₃ =>
      have hrest : Idle l₃ { displayRotate180 := true } :=
        fun o ho => hidle₂ o (List.mem_cons_of_mem _ ho)
      obtain ⟨x, v, rfl, -, -, hharm⟩ := hidle₂ o List.mem_cons_self
      show optionLoop ([chr '-', chr 'z'] :: [chr '-', x.letter] :: v :: commandLine l₃) {} = _
      rw [optionLoop_turn]
      exact optionLoop_lone rfl hrest hharm
  · have hall := optionLoop_append hz (fun o ho => hfits o (hl.mem_iff.mp ho)) [] {}
    rw [List.append_nil] at hall
    exact hall

theorem commandLine_append (l m : List Opt) :
    commandLine (l ++ m) = commandLine l ++ commandLine m := List.flatMap_append

/-- With `-z` last, all the other options are read as they are meant. -/
theorem fits_of_anyOrder {opts : List Opt} {c : Config} (h : AnyOrder opts c) :
    ∀ o ∈ opts, o.Fits := by
  have hperm := List.filter_append_perm (fun o => decide (o ≠ Opt.z)) opts
  have hrun := h _ hperm
  rw [commandLine_append] at hrun
  have hfits := fits_of_optionLoop (by simp) hrun
  intro o ho
  cases o with
  | z => trivial
  | set x v => exact hfits _ (List.mem_filter.mpr ⟨ho, by simp⟩)

theorem value_of_take {next value : Option (List UInt8)} {arg : List UInt8} {x : Setting}
    (h : (optionLetter arg).bind (take next) = some (.set x value)) : value = next := by
  obtain ⟨letter, -, htake⟩ := Option.bind_eq_some_iff.mp h
  unfold take at htake
  split_ifs at htake
  · cases htake
  · cases htake
  · obtain ⟨y, -, hy⟩ := Option.map_eq_some_iff.mp htake
    exact (Taken.set.inj hy).2.symm

/-- With `-z` last but one, the value of the last option stands alone. -/
theorem unhindered_of_anyOrder {opts : List Opt} (hd : (opts.map Opt.letter).Nodup)
    (h : AnyOrder opts (assigned opts {})) : Unhindered opts := by
  intro hz x v hx
  have hmem : Opt.set x v ∈ opts.erase .z := (List.mem_erase_of_ne (by simp)).mpr hx
  generalize hrest : (opts.erase .z).erase (.set x v) = rest
  have hperm : (rest ++ [Opt.z] ++ [Opt.set x v]).Perm opts := by
    rw [List.append_assoc, ← hrest]
    exact List.perm_append_comm.trans
      (((List.perm_cons_erase hmem).symm.cons _).trans (List.perm_cons_erase hz).symm)
  have hld := nodup_of_perm hperm hd
  have hrun := h _ hperm
  rw [← assigned_perm hperm hld, List.append_assoc, commandLine_append] at hrun
  have hzrest : Opt.z ∉ rest := by
    intro hmemz
    rw [List.map_append, List.map_append, List.append_assoc, List.nodup_append] at hld
    exact hld.2.2 _ (List.mem_map_of_mem hmemz) _ (by simp) rfl
  have hletter : x.letter ∉ (rest ++ [Opt.z]).map Opt.letter := by
    intro hmemx
    rw [List.map_append, List.nodup_append] at hld
    exact hld.2.2 _ hmemx _ (by simp [Opt.letter]) rfl
  rw [optionLoop_append hzrest (fits_of_optionLoop hzrest hrun), ← List.append_assoc,
    assigned_append] at hrun
  change optionLoop [v] (assigned [Opt.z] (assigned rest {})) =
    .ok (x.assign v (assigned (rest ++ [Opt.z]) {})) at hrun
  rw [← assigned_append, optionLoop, switch_eq] at hrun
  have hturned : (assigned (rest ++ [Opt.z]) {}).displayRotate180 = true := by
    rw [assigned_append]
    rfl
  have hdone : x.assign v (assigned (rest ++ [Opt.z]) {}) = assigned (rest ++ [Opt.z]) {} ∧
      Harmless v := by
    unfold Harmless
    cases hb : (optionLetter v).bind (take none) with
    | none =>
      rw [hb] at hrun
      refine ⟨(Except.ok.inj hrun).symm, ?_⟩
      intro t ht
      cases ht
    | some t =>
      rw [hb] at hrun
      cases t with
      | help => cases hrun
      | set y value =>
        obtain rfl := value_of_take hb
        cases hrun
      | turn =>
        change Except.ok { assigned (rest ++ [Opt.z]) {} with displayRotate180 := true } =
          Except.ok (x.assign v (assigned (rest ++ [Opt.z]) {})) at hrun
        rw [← hturned] at hrun
        refine ⟨(Except.ok.inj hrun).symm, ?_⟩
        intro t ht
        exact (Option.some.inj ht).symm
  exact ⟨(assigned_eq_self_iff hletter {}).mp hdone.1, hdone.2⟩

/-! ### Effects -/

theorem configured_of_known {l : List Opt} (h : ∀ o ∈ l, o.Known) (c : Config) :
    configured l c = assigned l c := by
  induction l generalizing c with
  | nil => rfl
  | cons o l ih =>
    rw [List.forall_mem_cons] at h
    have ho : o.effect c = o.assign c := by
      cases o with
      | set x v => exact (Setting.assign_eq_effect h.1 c).symm
      | z => rfl
    show configured l (o.effect c) = assigned l (o.assign c)
    rw [ho, ih h.2]

/-- With `-z` last, the program sets what each option says to it. -/
theorem exists_perm_assigned {opts : List Opt} (hd : (opts.map Opt.letter).Nodup)
    (hfits : ∀ o ∈ opts, o.Fits) :
    ∃ l : List Opt, l.Perm opts ∧ optionLoop (commandLine l) {} = .ok (assigned l {}) := by
  by_cases hz : Opt.z ∈ opts
  · refine ⟨opts.erase .z ++ [.z],
      (List.perm_append_singleton _ _).trans (List.perm_cons_erase hz).symm, ?_⟩
    have hrest : Opt.z ∉ opts.erase .z := (List.Nodup.of_map _ hd).not_mem_erase
    rw [commandLine_append, optionLoop_append hrest
      (fun o ho => hfits o (List.mem_of_mem_erase ho)), assigned_append]
    exact optionLoop_turn_last _
  · refine ⟨opts, List.Perm.refl _, ?_⟩
    have hall := optionLoop_append hz hfits [] {}
    rwa [List.append_nil] at hall

def OnlyGb (l : List Opt) : Prop := ∀ v, Opt.set .m v ∈ l → v = bytes "gb"

theorem OnlyGb.tail {o : Opt} {l : List Opt} (h : OnlyGb (o :: l)) : OnlyGb l :=
  fun v hv => h v (List.mem_cons_of_mem _ hv)

/-- The program does not know it. -/
theorem method_assigned {l : List Opt} (h : OnlyGb l) (c : Config) :
    (assigned l c).method = c.method := by
  induction l generalizing c with
  | nil => rfl
  | cons o l ih =>
    refine (ih h.tail (o.assign c)).trans ?_
    cases o with
    | z => rfl
    | set x v =>
      cases x with
      | m =>
        obtain rfl := h v List.mem_cons_self
        exact congrArg Config.method (setMethod_eq (bytes "gb") c)
      | r =>
        show (setRotation (Decimal.atoi v) c).method = c.method
        rw [setRotation_eq]
      | R =>
        show (extractReverseHostPort v c).method = c.method
        rw [extractReverseHostPort_fields]
      | f => rfl
      | p => rfl
      | P => rfl
      | s => rfl

theorem method_configured {l : List Opt} (h : OnlyGb l) (c : Config) :
    (configured l c).method = if Opt.set .m (bytes "gb") ∈ l then .flinger else c.method := by
  induction l generalizing c with
  | nil => rfl
  | cons o l ih =>
    refine (ih h.tail (o.effect c)).trans ?_
    have hmethod : (o.effect c).method =
        if o = Opt.set .m (bytes "gb") then .flinger else c.method := by
      cases o with
      | z => rfl
      | set x v =>
        cases x with
        | m =>
          obtain rfl := h v List.mem_cons_self
          rfl
        | r => rfl
        | R => rfl
        | f => rfl
        | p => rfl
        | P => rfl
        | s => rfl
    rw [hmethod]
    by_cases hl : Opt.set .m (bytes "gb") ∈ l
    · rw [if_pos hl, if_pos (List.mem_cons_of_mem _ hl)]
    · rw [if_neg hl]
      simp only [List.mem_cons, hl, or_false, eq_comm]

theorem known_of_anyOrder {opts : List Opt} (hd : (opts.map Opt.letter).Nodup)
    (h : AnyOrder opts (configured opts {})) : ∀ o ∈ opts, o.Known := by
  intro o ho
  cases o with
  | z => trivial
  | set x v =>
    cases x with
    | m =>
      rintro rfl
      have honly : OnlyGb opts := fun w hw =>
        (Opt.set.inj (List.inj_on_of_nodup_map hd hw ho rfl)).2
      obtain ⟨l, hl, hrun⟩ := exists_perm_assigned hd (fits_of_anyOrder h)
      have hmethod := congrArg Config.method (Except.ok.inj (hrun.symm.trans (h l hl)))
      rw [method_assigned fun w hw => honly w (hl.mem_iff.mp hw), method_configured honly,
        if_pos ho] at hmethod
      exact absurd hmethod (by decide)
    | _ => trivial

/-- The options of the usage text have their effect in every order exactly when the copied
values fit, the method is not `gb`, and `-z` hinders none of the others; and no command line
makes the loop use `argv[argc]` unless its last option lacks its argument. -/
theorem option_grammar_iff {opts : List Opt} (hd : (opts.map Opt.letter).Nodup)
    (args : List (List UInt8)) :
    (AnyOrder opts (configured opts {}) ↔
        (∀ o ∈ opts, o.Fits ∧ o.Known) ∧ Unhindered opts) ∧
      (optionLoop args {} ≠ .error .nullArgument ↔ ¬ Lacking (taken args)) := by
  constructor
  · constructor
    · intro h
      have hknown := known_of_anyOrder hd h
      have hfits := fits_of_anyOrder h
      rw [configured_of_known hknown] at h
      exact ⟨fun o ho => ⟨hfits o ho, hknown o ho⟩, unhindered_of_anyOrder hd h⟩
    · rintro ⟨hgood, hun⟩
      rw [configured_of_known fun o ho => (hgood o ho).2]
      exact anyOrder_of_unhindered hd (fun o ho => (hgood o ho).1) hun
  · rw [ne_eq, optionLoop_eq, runAll_eq_nullArgument]

/-- `-r 90`, `-s 50` and `-m adb` in every order, and a command line that is complete. -/
theorem option_grammar_rotated :
    AnyOrder [.set .r (bytes "90"), .set .s (bytes "50"), .set .m (bytes "adb")]
        { rotation := 90, scaling := 50, method := .adb } ∧
      optionLoop [bytes "-r", bytes "90"] {} ≠ .error .nullArgument := by
  have hd : (([.set .r (bytes "90"), .set .s (bytes "50"), .set .m (bytes "adb")] :
      List Opt).map Opt.letter).Nodup := by decide
  have h := option_grammar_iff hd [bytes "-r", bytes "90"]
  refine ⟨h.1.mpr ⟨?_, ?_⟩, h.2.mpr ?_⟩
  · simp [Opt.Fits, Setting.Fits, Opt.Known, Setting.Known]
    decide
  · exact fun hz => absurd hz (by decide)
  · exact fun hl => hl.2

/-- `-z -r 90` leaves the rotation at 0, `-m gb` the method at automatic, and `-r` alone uses
`argv[argc]`. -/
theorem not_option_grammar_z :
    (¬ ∀ opts : List Opt, (opts.map Opt.letter).Nodup → AnyOrder opts (configured opts {})) ∧
      ¬ AnyOrder [.set .m (bytes "gb")] (configured [.set .m (bytes "gb")] {}) ∧
      ¬ ∀ args : List (List UInt8), optionLoop args {} ≠ .error .nullArgument := by
  refine ⟨fun h => ?_, fun h => ?_, fun h => ?_⟩
  · have hrun := h [.z, .set .r (bytes "90")] (by decide) _ (List.Perm.refl _)
    exact absurd hrun (by decide)
  · exact absurd (h _ (List.Perm.refl _)) (by decide)
  · exact h [bytes "-r"] (by decide)

end DroidVnc.Startup
