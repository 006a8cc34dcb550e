import DroidVnc.Lib.Tokens
import DroidVnc.Startup.Options

/-! From the preferences to the daemon's settings. `startServer` builds one command
line, `Runtime.exec` splits it into words, and `main` reads the words as options. -/

namespace DroidVnc.Startup

/-- The characters at which `Runtime.exec` splits a command. -/
def delimiter (n : ℕ) : Bool := n = 32 || n = 9 || n = 10 || n = 13 || n = 12

/-- Of the Java runtime: how arguments are encoded for a process, the decimal digits of
`Character.digit`, and the application's directory, whose path has no delimiters. -/
structure Runtime where
  encode : List UInt16 → List UInt8
  encode_ascii : ∀ l, Utf8.Ascii l → 0 ∉ l → encode (Utf8.widen l) = l
  zero_notMem : ∀ s, 0 ∉ encode s
  delimiter_mem : ∀ s, (∃ b ∈ encode s, delimiter b.toNat) ↔ ∃ u ∈ s, delimiter u.toNat
  digit : UInt16 → Option ℕ
  filesDirParent : List UInt16
  delimiter_filesDirParent : ∀ u ∈ filesDirParent, delimiter u.toNat = false

namespace Runtime

def droidvncserverExec (r : Runtime) : List UInt16 :=
  r.filesDirParent ++ chars "/lib/libandroidvncserver.so"

/-- The number that digits spell; there must be one. -/
def number (r : Runtime) (l : List UInt16) : Option ℤ :=
  if l = [] then none else (l.mapM r.digit).map fun ds => (Nat.ofDigits 10 ds.reverse : ℤ)

/-- `Integer.parseInt`, without a result for a `NumberFormatException`. -/
def parseInt (r : Runtime) (s : List UInt16) : Option ℤ :=
  Option.filter (fun n => -2 ^ 31 ≤ n ∧ n < 2 ^ 31) <| match s with
    | [] => none
    | c :: l =>
      if c = 45 then (r.number l).map fun n => -n
      else if c = 43 then r.number l
      else r.number (c :: l)

/-- `Runtime.exec(String)`: the arguments that the process gets. -/
def exec (r : Runtime) (command : List UInt16) : List (List UInt8) :=
  (Tokens.tokens (fun u : UInt16 => delimiter u.toNat) command).map fun t =>
    CString.value (r.encode t)

end Runtime

inductive DisplayMode
  | auto
  | fb
  | gralloc
  | gingerbread
  deriving DecidableEq, Repr

def DisplayMode.text : DisplayMode → String
  | auto => "auto"
  | fb => "fb"
  | gralloc => "gralloc"
  | gingerbread => "gingerbread"

/-- The method that the entry is offered as: its name in `display_mode_strings` is
auto-detect, framebuffer, gralloc, SurfaceFlinger. -/
def DisplayMode.method : DisplayMode → Method
  | auto => .auto
  | fb => .framebuffer
  | gralloc => .gralloc
  | gingerbread => .flinger

/-- `rotation_values` and `scale_values`. -/
def rotationValues : List ℤ := [0, 90, 180, 270]

def scaleValues : List ℤ := [150, 100, 50, 30, 20]

structure Preferences where
  password : List UInt16
  rotation : ℤ
  scale : ℤ
  port : List UInt16
  displaymode : DisplayMode
  rotateZte : Bool
  rotation_mem : rotation ∈ rotationValues
  scale_mem : scale ∈ scaleValues

/-- `String.valueOf(int)`. -/
def valueOf (n : ℤ) : List UInt16 := Utf8.widen (Decimal.ofInt n)

/-- An option and its value, left out if the value is empty. -/
def flag (option : String) (value : List UInt16) : List UInt16 :=
  if value = [] then [] else chars option ++ value

/-- The command line of `startServer`, with `null` for `rHost` as `none`. -/
def serverString (r : Runtime) (p : Preferences) (rHost : Option (List UInt16)) : List UInt16 :=
  let port := ((r.parseInt p.port).map valueOf).getD (chars "5901")
  let displayMethod := if p.displaymode = .auto then [] else chars "-m " ++ chars p.displaymode.text
  let displayZte := if p.rotateZte then chars "-z" else []
  r.droidvncserverExec ++ chars " " ++ flag "-p " p.password ++ chars " " ++
    flag "-r " (valueOf p.rotation) ++ chars " " ++ flag "-s " (valueOf p.scale) ++ chars " " ++
    flag "-P " port ++ chars " " ++ flag "-R " (rHost.getD []) ++ chars " " ++ displayMethod ++
    chars " " ++ displayZte

def settings (r : Runtime) (p : Preferences) (rHost : Option (List UInt16)) :
    Except Stop Config :=
  optionLoop (r.exec (serverString r p rHost)).tail {}

def reverseTarget (r : Runtime) (rHost : Option (List UInt16)) : Option (List UInt8) × ℤ :=
  if rHost.getD [] = [] then (none, 5500)
  else
    let c := extractReverseHostPort (r.encode (rHost.getD [])) {}
    (c.rhost, c.rport)

def Faithful (r : Runtime) (p : Preferences) (rHost : Option (List UInt16)) : Prop :=
  ∃ c, settings r p rHost = .ok c ∧
    c.vncPassword = r.encode p.password ∧ c.rotation = p.rotation ∧ c.scaling = p.scale ∧
    c.vncPort = (r.parseInt p.port).getD 5901 ∧ c.method = p.displaymode.method ∧
    c.displayRotate180 = p.rotateZte ∧ (c.rhost, c.rport) = reverseTarget r rHost

/-! ### Splitting the command line -/

theorem exec_nil (r : Runtime) : r.exec [] = [] := by
  rw [Runtime.exec, Tokens.tokens_nil, List.map_nil]

theorem exec_space (r : Runtime) (l m : List UInt16) :
    r.exec (l ++ chars " " ++ m) = r.exec l ++ r.exec m := by
  have hsep : delimiter (32 : UInt16).toNat := rfl
  rw [Runtime.exec, List.append_assoc]
  exact (congrArg _ (Tokens.tokens_append_cons l m hsep)).trans (List.map_append ..)

theorem exec_word (r : Runtime) {l : List UInt16}
    (h : Tokens.Word (fun u : UInt16 => delimiter u.toNat) l) : r.exec l = [r.encode l] := by
  rw [Runtime.exec, Tokens.tokens_word h, List.map_singleton,
    CString.value_of_notMem (r.zero_notMem l)]

/-- ASCII words that the program itself puts on the command line. -/
structure Plain (l : List UInt8) : Prop where
  ascii : Utf8.Ascii l
  zero_notMem : 0 ∉ l
  ne_nil : l ≠ []
  delimiter_eq : ∀ b ∈ l, delimiter b.toNat = false

instance (l : List UInt8) : Decidable (Plain l) :=
  haveI := List.decidableBAll (fun b : UInt8 => delimiter b.toNat = false) l
  decidable_of_iff (Utf8.Ascii l ∧ 0 ∉ l ∧ l ≠ [] ∧ ∀ b ∈ l, delimiter b.toNat = false)
    ⟨fun h => ⟨h.1, h.2.1, h.2.2.1, h.2.2.2⟩,
      fun h => ⟨h.ascii, h.zero_notMem, h.ne_nil, h.delimiter_eq⟩⟩

theorem exec_plain (r : Runtime) {l : List UInt8} (h : Plain l) :
    r.exec (Utf8.widen l) = [l] := by
  rw [exec_word r, r.encode_ascii l h.ascii h.zero_notMem]
  refine ⟨by simpa [Utf8.widen] using h.ne_nil, fun u hu => ?_⟩
  obtain ⟨b, hb, rfl⟩ := List.mem_map.mp hu
  simpa only [UInt8.toNat_toUInt16] using h.delimiter_eq b hb

theorem plain_ofInt (n : ℤ) : Plain (Decimal.ofInt n) := by
  have hmem : ∀ b ∈ Decimal.ofInt n, 45 ≤ b.toNat ∧ b.toNat ≤ 57 := by
    intro b hb
    obtain hdigit | rfl := Decimal.mem_ofInt hb
    · simp only [Decimal.isdigit, Bool.and_eq_true, decide_eq_true_eq] at hdigit
      omega
    · decide
  refine ⟨fun b hb => ?_, fun h => ?_, Decimal.ofInt_ne_nil n, fun b hb => ?_⟩
  · have := hmem b hb
    omega
  · exact absurd (hmem 0 h) (by decide)
  · have := hmem b hb
    simp only [delimiter, Bool.or_eq_false_iff, decide_eq_false_iff_not]
    omega

theorem exec_flag (r : Runtime) {option : String} (name : List UInt8)
    (hname : chars option = Utf8.widen name ++ chars " ") (h : Plain name) (value : List UInt16) :
    r.exec (flag option value) = if value = [] then [] else name :: r.exec value := by
  unfold flag
  split_ifs
  · exact exec_nil r
  · rw [hname, exec_space, exec_plain r h, List.singleton_append]

theorem exec_valueOf (r : Runtime) (n : ℤ) : r.exec (valueOf n) = [Decimal.ofInt n] :=
  exec_plain r (plain_ofInt n)

theorem valueOf_ne_nil (n : ℤ) : valueOf n ≠ [] := by
  simpa [valueOf, Utf8.widen] using Decimal.ofInt_ne_nil n

def wantedPort (r : Runtime) (p : Preferences) : ℤ := (r.parseInt p.port).getD 5901

/-- The arguments for the reverse connection, the display mode and the turned display. -/
def lastArguments (r : Runtime) (p : Preferences) (rHost : Option (List UInt16)) :
    List (List UInt8) :=
  (if rHost.getD [] = [] then [] else bytes "-R" :: r.exec (rHost.getD [])) ++
    ((if p.displaymode = .auto then [] else [bytes "-m", bytes p.displaymode.text]) ++
      if p.rotateZte then [bytes "-z"] else [])

def arguments (r : Runtime) (p : Preferences) (rHost : Option (List UInt16)) :
    List (List UInt8) :=
  (if p.password = [] then [] else bytes "-p" :: r.exec p.password) ++
    bytes "-r" :: Decimal.ofInt p.rotation :: bytes "-s" :: Decimal.ofInt p.scale ::
      bytes "-P" :: Decimal.ofInt (wantedPort r p) :: lastArguments r p rHost

theorem getD_port (r : Runtime) (p : Preferences) :
    ((r.parseInt p.port).map valueOf).getD (chars "5901") = valueOf (wantedPort r p) := by
  unfold wantedPort
  cases r.parseInt p.port with
  | none => rfl
  | some n => rfl

theorem exec_displayMode (r : Runtime) (p : Preferences) :
    r.exec (if p.displaymode = .auto then [] else chars "-m " ++ chars p.displaymode.text) =
      if p.displaymode = .auto then [] else [bytes "-m", bytes p.displaymode.text] := by
  split_ifs with hauto
  · exact exec_nil r
  · have hsplit : chars "-m " = Utf8.widen (bytes "-m") ++ chars " " := rfl
    have htext : Plain (bytes p.displaymode.text) := by
      cases p.displaymode <;> decide
    rw [hsplit, exec_space, exec_plain r (by decide), chars, exec_plain r htext,
      List.singleton_append]

theorem exec_displayZte (r : Runtime) (p : Preferences) :
    r.exec (if p.rotateZte then chars "-z" else []) = if p.rotateZte then [bytes "-z"] else [] := by
  split_ifs
  · exact exec_plain r (by decide)
  · exact exec_nil r

theorem word_droidvncserverExec (r : Runtime) :
    Tokens.Word (fun u : UInt16 => delimiter u.toNat) r.droidvncserverExec := by
  have hname : Tokens.Word (fun u : UInt16 => delimiter u.toNat)
      (chars "/lib/libandroidvncserver.so") := by decide
  refine ⟨List.append_ne_nil_of_right_ne_nil _ hname.1, ?_⟩
  exact List.forall_mem_append.mpr ⟨r.delimiter_filesDirParent, hname.2⟩

/-- The command line is split into exactly these arguments. -/
theorem settings_eq (r : Runtime) (p : Preferences) (rHost : Option (List UInt16)) :
    settings r p rHost = optionLoop (arguments r p rHost) {} := by
  unfold settings serverString
  rw [getD_port]
  simp only [exec_space]
  rw [exec_word r (word_droidvncserverExec r), exec_flag r (bytes "-p") rfl (by decide),
    exec_flag r (bytes "-r") rfl (by decide), exec_flag r (bytes "-s") rfl (by decide),
    exec_flag r (bytes "-P") rfl (by decide), exec_flag r (bytes "-R") rfl (by decide),
    exec_displayMode, exec_displayZte, exec_valueOf, exec_valueOf, exec_valueOf,
    if_neg (valueOf_ne_nil _), if_neg (valueOf_ne_nil _), if_neg (valueOf_ne_nil _), arguments,
    lastArguments]
  simp only [List.append_assoc, List.cons_append, List.nil_append, List.tail_cons]

/-! ### Reading the arguments -/

/-- The arguments for the rotation, the scale and the port set just these. -/
theorem optionLoop_numbers (p : Preferences) {port : ℤ} (hlo : -2 ^ 31 ≤ port)
    (hhi : port < 2 ^ 31) (l : List (List UInt8)) (c : Config) :
    optionLoop (bytes "-r" :: Decimal.ofInt p.rotation :: bytes "-s" :: Decimal.ofInt p.scale ::
        bytes "-P" :: Decimal.ofInt port :: l) c =
      optionLoop l { c with rotation := p.rotation, scaling := p.scale, vncPort := port } := by
  have hrot : p.rotation = 0 ∨ p.rotation = 90 ∨ p.rotation = 180 ∨ p.rotation = 270 := by
    simpa [rotationValues] using p.rotation_mem
  have hscale : 1 ≤ p.scale ∧ p.scale ≤ 150 := by
    have h := p.scale_mem
    simp only [scaleValues, List.mem_cons, List.not_mem_nil, or_false] at h
    omega
  have hrint : -2 ^ 31 ≤ p.rotation ∧ p.rotation < 2 ^ 31 := by omega
  have hsint : -2 ^ 31 ≤ p.scale ∧ p.scale < 2 ^ 31 := by omega
  rw [optionLoop_r, optionLoop_s, optionLoop_P, Decimal.atoi_ofInt hrint.1 hrint.2,
    Decimal.atoi_ofInt hsint.1 hsint.2, Decimal.atoi_ofInt hlo hhi, setRotation, if_pos hrot,
    setScaling, if_pos hscale]

theorem parseInt_bounds {r : Runtime} {s : List UInt16} {n : ℤ} (h : r.parseInt s = some n) :
    -2 ^ 31 ≤ n ∧ n < 2 ^ 31 := by
  simpa using (Option.filter_eq_some_iff.mp h).2

theorem wantedPort_bounds (r : Runtime) (p : Preferences) :
    -2 ^ 31 ≤ wantedPort r p ∧ wantedPort r p < 2 ^ 31 := by
  unfold wantedPort
  cases h : r.parseInt p.port with
  | none => decide
  | some n => exact parseInt_bounds h

theorem setMethod_text (mode : DisplayMode) {c : Config} (hc : c.method = .auto) :
    setMethod (bytes mode.text) c =
      { c with method := if mode = .gingerbread then .auto else mode.method } := by
  cases mode with
  | auto =>
    change c = { c with method := .auto }
    rw [← hc]
  | gingerbread =>
    change c = { c with method := .auto }
    rw [← hc]
  | fb => rfl
  | gralloc => rfl

theorem optionLoop_z (zte : Bool) {c : Config} (hc : c.displayRotate180 = false) :
    optionLoop (if zte then [bytes "-z"] else []) c = .ok { c with displayRotate180 := zte } := by
  cases zte with
  | true => rfl
  | false =>
    change Except.ok c = _
    rw [← hc]

/-- A display mode and the turned display, as last arguments. -/
theorem optionLoop_display (mode : DisplayMode) (zte : Bool) {c : Config} (hc : c.method = .auto)
    (hz : c.displayRotate180 = false) :
    optionLoop ((if mode = .auto then [] else [bytes "-m", bytes mode.text]) ++
        if zte then [bytes "-z"] else []) c =
      .ok { c with
        method := if mode = .gingerbread then .auto else mode.method
        displayRotate180 := zte } := by
  by_cases hauto : mode = .auto
  · subst hauto
    rw [if_pos rfl, List.nil_append, optionLoop_z zte hz]
    change _ = Except.ok { c with method := .auto, displayRotate180 := zte }
    rw [← hc]
  · rw [if_neg hauto, List.cons_append, List.cons_append, List.nil_append, optionLoop_m,
      setMethod_text mode hc]
    exact optionLoop_z zte hz

/-! ### Clean and unclean settings -/

theorem encode_nil (r : Runtime) : r.encode [] = [] := r.encode_ascii [] (by decide) (by decide)

def Unbroken (s : List UInt16) : Prop := ∀ u ∈ s, delimiter u.toNat = false

instance (s : List UInt16) : Decidable (Unbroken s) :=
  List.decidableBAll (fun u : UInt16 => delimiter u.toNat = false) s

theorem unbroken_encode_iff (r : Runtime) (s : List UInt16) :
    (∀ b ∈ r.encode s, delimiter b.toNat = false) ↔ Unbroken s := by
  simpa [Unbroken] using not_congr (r.delimiter_mem s)

/-- The password is one word that fits `VNC_PASSWORD` with its terminator. -/
def PasswordFits (r : Runtime) (p : Preferences) : Prop :=
  Unbroken p.password ∧ (r.encode p.password).length < 256

theorem optionLoop_password {r : Runtime} {p : Preferences} (h : PasswordFits r p)
    (l : List (List UInt8)) :
    optionLoop ((if p.password = [] then [] else bytes "-p" :: r.exec p.password) ++ l) {} =
      optionLoop l { vncPassword := r.encode p.password } := by
  by_cases hnil : p.password = []
  · rw [if_pos hnil, hnil, encode_nil, List.nil_append]
  · rw [if_neg hnil, exec_word r ⟨hnil, h.1⟩, List.cons_append, List.singleton_append,
      optionLoop_p, strcpy_map_eq_ok.mpr ⟨h.2, rfl⟩]
    rfl

theorem optionLoop_rHost {r : Runtime} {host : List UInt16} (h : Unbroken host)
    (l : List (List UInt8)) (c : Config) :
    optionLoop ((if host = [] then [] else bytes "-R" :: r.exec host) ++ l) c =
      optionLoop l (if host = [] then c else extractReverseHostPort (r.encode host) c) := by
  by_cases hnil : host = []
  · rw [if_pos hnil, if_pos hnil, List.nil_append]
  · rw [if_neg hnil, if_neg hnil, exec_word r ⟨hnil, h⟩, List.cons_append, List.singleton_append,
      optionLoop_R]

/-- Only the host and the port depend on the string that they are extracted from. -/
theorem extractReverseHostPort_eq (str : List UInt8) {c : Config} (hc : c.rport = 5500) :
    extractReverseHostPort str c =
      { c with
        rhost := (extractReverseHostPort str {}).rhost
        rport := (extractReverseHostPort str {}).rport } := by
  unfold extractReverseHostPort
  cases CString.strrchr (chr ':') str with
  | none => rw [← hc]
  | some t => rfl

theorem settings_of_fits (r : Runtime) {p : Preferences} (hp : PasswordFits r p)
    {rHost : Option (List UInt16)} (hhost : Unbroken (rHost.getD [])) :
    settings r p rHost = .ok
      { vncPassword := r.encode p.password
        displayRotate180 := p.rotateZte
        vncPort := wantedPort r p
        rotation := p.rotation
        scaling := p.scale
        rhost := (reverseTarget r rHost).1
        rport := (reverseTarget r rHost).2
        method := if p.displaymode = .gingerbread then .auto else p.displaymode.method } := by
  have hport := wantedPort_bounds r p
  rw [settings_eq, arguments, optionLoop_password hp, optionLoop_numbers p hport.1 hport.2,
    lastArguments, optionLoop_rHost hhost, reverseTarget]
  by_cases hnil : rHost.getD [] = []
  · rw [if_pos hnil, if_pos hnil]
    exact optionLoop_display _ _ rfl rfl
  · rw [if_neg hnil, if_neg hnil, extractReverseHostPort_eq _ rfl]
    exact optionLoop_display _ _ rfl rfl

/-- No setting that comes from an argument has a delimiter in it. -/
theorem unbroken_settings {l : List (List UInt8)}
    (hl : ∀ s ∈ l, ∀ b ∈ s, delimiter b.toNat = false) {c : Config} (h : optionLoop l {} = .ok c) :
    (∀ b ∈ c.vncPassword, delimiter b.toNat = false) ∧
      ∀ host ∈ c.rhost, ∀ b ∈ host, delimiter b.toNat = false := by
  refine optionLoop_preserves (Q := fun s => ∀ b ∈ s, delimiter b.toNat = false)
    (P := fun c => (∀ b ∈ c.vncPassword, delimiter b.toNat = false) ∧
      ∀ host ∈ c.rhost, ∀ b ∈ host, delimiter b.toNat = false) ?_ (fun _ hc => hc) hl ?_ h
  · intro letter f s c c' hf hs hc hok
    obtain ⟨_, rfl⟩ | ⟨_, rfl⟩ | rfl | rfl | rfl | rfl | rfl := setting_cases hf hok
    · exact ⟨hs, hc.2⟩
    · exact hc
    · exact hc
    · unfold setRotation
      split_ifs <;> exact hc
    · exact hc
    · unfold extractReverseHostPort
      cases ht : CString.strrchr (chr ':') s with
      | none => exact ⟨hc.1, by simpa using hs⟩
      | some t =>
        have hsplit := CString.eq_of_strrchr ht
        refine ⟨hc.1, fun host hhost b hb => hs b ?_⟩
        rw [hsplit, Option.mem_some_iff.mp hhost]
        exact List.mem_append_left _ hb
    · unfold setMethod
      split_ifs <;> exact hc
  · simp

theorem unbroken_exec (r : Runtime) (command : List UInt16) :
    ∀ s ∈ r.exec command, ∀ b ∈ s, delimiter b.toNat = false := by
  intro s hs
  obtain ⟨t, ht, rfl⟩ := List.mem_map.mp hs
  rw [CString.value_of_notMem (r.zero_notMem t), unbroken_encode_iff]
  exact Tokens.forall_mem_tokens command t ht

/-- The blanks of the host's text all stand behind its last colon. -/
def BlanksInPort (r : Runtime) (rHost : Option (List UInt16)) : Prop :=
  ∃ host port, CString.strrchr (chr ':') (r.encode (rHost.getD [])) = some (host, port) ∧
    (∀ b ∈ host, delimiter b.toNat = false) ∧ ∃ b ∈ port, delimiter b.toNat

/-- A password that fits, no delimiter in the host, and a display mode that `main` knows. -/
def Clean (r : Runtime) (p : Preferences) (rHost : Option (List UInt16)) : Prop :=
  PasswordFits r p ∧ Unbroken (rHost.getD []) ∧ p.displaymode ≠ .gingerbread

theorem faithful_iff_of_fits (r : Runtime) {p : Preferences} (hp : PasswordFits r p)
    {rHost : Option (List UInt16)} (hhost : Unbroken (rHost.getD [])) :
    Faithful r p rHost ↔ p.displaymode ≠ .gingerbread := by
  unfold Faithful
  rw [settings_of_fits r hp hhost]
  simp only [Except.ok.injEq, exists_eq_left', true_and, and_true]
  refine (and_iff_right rfl).trans ?_
  cases p.displaymode <;> decide

theorem passwordFits_of_faithful (r : Runtime) {p : Preferences} {rHost : Option (List UInt16)}
    (hf : Faithful r p rHost) : PasswordFits r p := by
  obtain ⟨c, hok, hpw, -⟩ := hf
  have hwords := unbroken_settings (fun s hs => unbroken_exec r _ s (List.mem_of_mem_tail hs)) hok
  have hword : Unbroken p.password := by
    rw [← unbroken_encode_iff r, ← hpw]
    exact hwords.1
  refine ⟨hword, ?_⟩
  by_contra hlong
  have hnil : p.password ≠ [] := by
    rintro hnil
    rw [hnil, encode_nil] at hlong
    exact hlong (by decide)
  rw [settings_eq, arguments, if_neg hnil, exec_word r ⟨hnil, hword⟩, List.cons_append,
    List.singleton_append, optionLoop_p, strcpy, if_neg hlong] at hok
  exact bind_overrun_ne_ok hok

/-- A host with a blank before its port is not what the daemon gets. -/
theorem unbroken_of_faithful (r : Runtime) {p : Preferences} {rHost : Option (List UInt16)}
    (hf : Faithful r p rHost) (hport : ¬ BlanksInPort r rHost) : Unbroken (rHost.getD []) := by
  obtain ⟨c, hok, -, -, -, -, -, -, hreverse⟩ := hf
  have hwords := unbroken_settings (fun s hs => unbroken_exec r _ s (List.mem_of_mem_tail hs)) hok
  by_contra hbroken
  have hnil : rHost.getD [] ≠ [] := by
    intro hnil
    exact hbroken (by simp [Unbroken, hnil])
  rw [reverseTarget, if_neg hnil] at hreverse
  have hrhost := congrArg Prod.fst hreverse
  rw [← unbroken_encode_iff r] at hbroken
  unfold extractReverseHostPort at hrhost
  cases ht : CString.strrchr (chr ':') (r.encode (rHost.getD [])) with
  | none =>
    rw [ht] at hrhost
    exact hbroken (hwords.2 _ hrhost)
  | some t =>
    rw [ht] at hrhost
    have hhost := hwords.2 t.1 hrhost
    have hrest : ¬ ∀ b ∈ t.2, delimiter b.toNat = false := by
      intro hbehind
      rw [CString.eq_of_strrchr ht] at hbroken
      exact hbroken (List.forall_mem_append.mpr ⟨hhost, List.forall_mem_cons.mpr ⟨rfl, hbehind⟩⟩)
    exact hport ⟨t.1, t.2, ht, hhost, by simpa using hrest⟩

/-- All settings reach the daemon if they are clean; and only then, except that blanks
behind the colon of the host can come to the same. -/
theorem settings_faithful (r : Runtime) (p : Preferences) (rHost : Option (List UInt16)) :
    (Clean r p rHost → Faithful r p rHost) ∧
      (Faithful r p rHost → Clean r p rHost ∨ PasswordFits r p ∧ BlanksInPort r rHost) := by
  constructor
  · rintro ⟨hp, hhost, hmode⟩
    exact (faithful_iff_of_fits r hp hhost).mpr hmode
  · intro hf
    have hp := passwordFits_of_faithful r hf
    by_cases hport : BlanksInPort r rHost
    · exact Or.inr ⟨hp, hport⟩
    · have hhost := unbroken_of_faithful r hf hport
      exact Or.inl ⟨hp, hhost, (faithful_iff_of_fits r hp hhost).mp hf⟩

/-! ### A runtime -/

/-- A code unit in modified UTF-8, which has no zero byte. -/
def modifiedUtf8 (u : UInt16) : List UInt8 :=
  if 0 < u.toNat ∧ u.toNat < 0x80 then [u.toUInt8]
  else if u.toNat < 0x800 then [(0xC0 + u.toNat / 64).toUInt8, (0x80 + u.toNat % 64).toUInt8]
  else [(0xE0 + u.toNat / 4096).toUInt8, (0x80 + u.toNat / 64 % 64).toUInt8,
    (0x80 + u.toNat % 64).toUInt8]

/-- An ASCII unit is its own byte, and no other byte is ASCII. -/
theorem mem_modifiedUtf8 {u : UInt16} {b : UInt8} (h : b ∈ modifiedUtf8 u) :
    0 < u.toNat ∧ b.toNat = u.toNat ∨ 0x80 ≤ b.toNat ∧ (u.toNat = 0 ∨ 0x80 ≤ u.toNat) := by
  have hu := u.toNat_lt
  unfold modifiedUtf8 at h
  split_ifs at h with h₁ h₂
  · rw [List.mem_singleton.mp h, UInt16.toNat_toUInt8]
    omega
  · simp only [List.mem_cons, List.not_mem_nil, or_false] at h
    obtain rfl | rfl := h <;> simp only [Nat.toUInt8_eq, UInt8.toNat_ofNat'] <;> omega
  · simp only [List.mem_cons, List.not_mem_nil, or_false] at h
    obtain rfl | rfl | rfl := h <;> simp only [Nat.toUInt8_eq, UInt8.toNat_ofNat'] <;> omega

theorem flatMap_modifiedUtf8 {l : List UInt8} (ha : Utf8.Ascii l) (hz : 0 ∉ l) :
    (Utf8.widen l).flatMap modifiedUtf8 = l := by
  induction l with
  | nil => rfl
  | cons b l ih =>
    rw [List.mem_cons, not_or] at hz
    have hb : 0 < b.toNat ∧ b.toNat < 0x80 :=
      ⟨Nat.pos_of_ne_zero fun h => hz.1 (UInt8.toNat_inj.mp h.symm), ha b (by simp)⟩
    have hunit : modifiedUtf8 b.toUInt16 = [b] := by
      rw [modifiedUtf8, UInt8.toNat_toUInt16, if_pos hb]
      simp
    have htail : (Utf8.widen l).flatMap modifiedUtf8 = l :=
      ih (fun c hc => ha c (by simp [hc])) hz.2
    rw [Utf8.widen, List.map_cons, List.flatMap_cons, hunit, ← Utf8.widen, htail,
      List.singleton_append]

theorem delimiter_bounds {n : ℕ} (h : delimiter n) : 0 < n ∧ n < 0x80 := by
  simp only [delimiter, Bool.or_eq_true, decide_eq_true_eq] at h
  omega

theorem word_filesDirParent :
    Tokens.Word (fun u : UInt16 => delimiter u.toNat) (chars "/data/data/org.onaips.vnc") := by
  decide

/-- A runtime that encodes arguments in modified UTF-8 and knows the ASCII digits. -/
def android : Runtime where
  encode s := s.flatMap modifiedUtf8
  encode_ascii _ ha hz := flatMap_modifiedUtf8 ha hz
  zero_notMem s := by
    intro h
    obtain ⟨u, -, hu⟩ := List.mem_flatMap.mp h
    have hmem := mem_modifiedUtf8 hu
    rw [UInt8.toNat_zero] at hmem
    omega
  delimiter_mem s := by
    constructor
    · rintro ⟨b, hb, hdelim⟩
      obtain ⟨u, hu, hbu⟩ := List.mem_flatMap.mp hb
      have hlt := delimiter_bounds hdelim
      obtain ⟨-, heq⟩ | ⟨hge, -⟩ := mem_modifiedUtf8 hbu
      · exact ⟨u, hu, heq ▸ hdelim⟩
      · omega
    · rintro ⟨u, hu, hdelim⟩
      have hlt := delimiter_bounds hdelim
      have hbyte : u.toUInt8.toNat = u.toNat := by
        rw [UInt16.toNat_toUInt8]
        omega
      refine ⟨u.toUInt8, List.mem_flatMap.mpr ⟨u, hu, ?_⟩, hbyte ▸ hdelim⟩
      rw [modifiedUtf8, if_pos hlt]
      exact List.mem_singleton_self _
  digit u := if 48 ≤ u.toNat ∧ u.toNat ≤ 57 then some (u.toNat - 48) else none
  filesDirParent := chars "/data/data/org.onaips.vnc"
  delimiter_filesDirParent := word_filesDirParent.2

/-- The stored entry for SurfaceFlinger is none of the methods that `main` knows. -/
theorem not_faithful_gingerbread :
    ¬ Faithful android ⟨[], 0, 100, chars "5901", .gingerbread, false, by decide, by decide⟩
      none := by
  rw [faithful_iff_of_fits]
  · simp
  · exact ⟨by decide, by decide⟩
  · decide

end DroidVnc.Startup
