import ContainerSim.Cli.Flags
import Mathlib.Data.List.Nodup

/-!
# The flags as a list

The words that `parse_limit_flags` takes are those of a list of flags, and what
it writes is what the flags set one after the other. The capability mask is
then decided by the last flag that is about a capability, and flags of
different options may change places, but for `--read-only` and `--privileged`.
-/

namespace ContainerSim.Cli

open Lib ContainerSim.Runtime

/-! ## Flags -/

/-- The limits of a `ResourceConfig`. -/
inductive Limit where
  | cpu | mem | pids
  deriving DecidableEq, Repr

def Limit.word : Limit → Bytes
  | .cpu => bytes "--cpu"
  | .mem => bytes "--mem"
  | .pids => bytes "--pids"

def Limit.get (config : ResourceConfig) : Limit → UInt32
  | .cpu => config.cpuSeconds
  | .mem => config.memoryMb
  | .pids => config.maxProcesses

def Limit.set (config : ResourceConfig) (value : UInt32) : Limit → ResourceConfig
  | .cpu => { config with cpuSeconds := value }
  | .mem => { config with memoryMb := value }
  | .pids => { config with maxProcesses := value }

inductive Flag where
  | limit (limit : Limit) (value : Bytes)
  | rm
  | publish (short : Bool) (maps : Bytes)
  | privileged
  | readOnly
  | cap (add : Bool) (name : Bytes)
  deriving DecidableEq, Repr

def Flag.words : Flag → List Bytes
  | .limit l value => [l.word, value]
  | .rm => [bytes "--rm"]
  | .publish short maps => [bytes (if short then "-p" else "--publish"), maps]
  | .privileged => [bytes "--privileged"]
  | .readOnly => [bytes "--read-only"]
  | .cap add name => [bytes (if add then "--cap-add" else "--cap-drop"), name]

/-- `--cap-add` or `--cap-drop` of a number. -/
def setCap (add : Bool) (cfg : SecurityConfig) (nr : Nat) : SecurityConfig :=
  if add then securityCapAdd cfg nr else securityCapDrop cfg nr

/-- `--cap-add` or `--cap-drop` of a name; an unknown one is passed over. -/
def setName (add : Bool) (name : Bytes) (cfg : SecurityConfig) : SecurityConfig :=
  (securityCapNumber name).elim cfg (setCap add cfg)

/-- What a flag writes. -/
def Flag.set (f : LimitFlags) : Flag → LimitFlags
  | .limit l value => { f with limits := l.set f.limits (limitValue value) }
  | .rm => { f with autoRemove := f.autoRemove.map fun _ => true }
  | .publish _ text =>
    { f with
      portMaps := f.portMaps.map fun maps =>
        if maps.length < maxPortMaps then
          maps ++ bridgeParsePortMaps text (maxPortMaps - maps.length)
        else maps }
  | .privileged => { f with security := securityConfigNone }
  | .readOnly => { f with security := { f.security with readonlyRootfs := 1 } }
  | .cap add name => { f with security := setName add name f.security }

/-- What the flags write, from the first to the last. -/
def setFlags (flags : List Flag) (f : LimitFlags) : LimitFlags := flags.foldl Flag.set f

@[simp] theorem setFlags_nil (f : LimitFlags) : setFlags [] f = f := rfl

@[simp] theorem setFlags_cons (x : Flag) (flags : List Flag) (f : LimitFlags) :
    setFlags (x :: flags) f = setFlags flags (x.set f) := rfl

theorem setFlags_append (flags flags' : List Flag) (f : LimitFlags) :
    setFlags (flags ++ flags') f = setFlags flags' (setFlags flags f) := List.foldl_append

theorem setFlags_snoc (flags : List Flag) (x : Flag) (f : LimitFlags) :
    setFlags (flags ++ [x]) f = x.set (setFlags flags f) := setFlags_append flags [x] f

/-! ## The parser takes lists of flags -/

/-- The words do not go on with a flag. -/
def NoFlag (words : List Bytes) : Prop := ∀ word ∈ words.head?, word.head? ≠ some 45

theorem plainFlag_some {word : Bytes} {set : LimitFlags → LimitFlags}
    (h : plainFlag word = some set) : ∃ x : Flag, x.words = [word] ∧ set = (Flag.set · x) := by
  unfold plainFlag at h
  split at h
  · rename_i hword
    exact ⟨.rm, by rw [hword]; rfl, (Option.some.inj h).symm⟩
  · split at h
    · rename_i hword
      exact ⟨.privileged, by rw [hword]; rfl, (Option.some.inj h).symm⟩
    · split at h
      · rename_i hword
        exact ⟨.readOnly, by rw [hword]; rfl, (Option.some.inj h).symm⟩
      · cases h

theorem valueFlag_some {word : Bytes} {set : Bytes → LimitFlags → LimitFlags}
    (h : valueFlag word = some set) (value : Bytes) :
    ∃ x : Flag, x.words = [word, value] ∧ set value = (Flag.set · x) := by
  unfold valueFlag at h
  split at h
  · rename_i hword
    obtain rfl := Option.some.inj h
    exact ⟨.limit .cpu value, by rw [hword]; rfl, rfl⟩
  · split at h
    · rename_i hword
      obtain rfl := Option.some.inj h
      exact ⟨.limit .mem value, by rw [hword]; rfl, rfl⟩
    · split at h
      · rename_i hword
        obtain rfl := Option.some.inj h
        exact ⟨.limit .pids value, by rw [hword]; rfl, rfl⟩
      · split at h
        · rename_i hword
          obtain rfl := Option.some.inj h
          rcases hword with hword | hword
          · exact ⟨.publish false value, by rw [hword]; rfl, rfl⟩
          · exact ⟨.publish true value, by rw [hword]; rfl, rfl⟩
        · split at h
          · rename_i hword
            obtain rfl := Option.some.inj h
            exact ⟨.cap true value, by rw [hword]; rfl, rfl⟩
          · split at h
            · rename_i hword
              obtain rfl := Option.some.inj h
              exact ⟨.cap false value, by rw [hword]; rfl, rfl⟩
            · cases h

/-- The words of a flag in front of others are taken as that flag. -/
theorem parseLimitFlags_flag (x : Flag) (args : List Bytes) (f : LimitFlags) :
    parseLimitFlags (x.words ++ args) f = parseLimitFlags args (x.set f) := by
  cases x with
  | limit l value => cases l <;> rfl
  | publish short maps => cases short <;> rfl
  | cap add name => cases add <;> rfl
  | rm => rfl
  | privileged => rfl
  | readOnly => rfl

/-- The words of the flags of a list. -/
def flagWords (flags : List Flag) : List Bytes := flags.flatMap Flag.words

theorem parseLimitFlags_words (flags : List Flag) {rest : List Bytes} (hrest : NoFlag rest)
    (f : LimitFlags) :
    parseLimitFlags (flagWords flags ++ rest) f = some (setFlags flags f, rest) := by
  induction flags generalizing f with
  | nil =>
    show parseLimitFlags rest f = _
    cases rest with
    | nil => rfl
    | cons word rest =>
      unfold parseLimitFlags
      rw [if_pos (hrest word rfl)]
      rfl
  | cons x flags ih =>
    rw [flagWords, List.flatMap_cons, List.append_assoc, parseLimitFlags_flag]
    exact ih (x.set f)

/-- Words that the parser accepts are those of a list of flags and the rest. -/
theorem parseLimitFlags_flags {args rest : List Bytes} {f f' : LimitFlags}
    (h : parseLimitFlags args f = some (f', rest)) :
    ∃ flags, args = flagWords flags ++ rest ∧ NoFlag rest ∧ f' = setFlags flags f := by
  fun_induction parseLimitFlags args f with
  | case1 f =>
    cases h
    exact ⟨[], rfl, by simp [NoFlag], rfl⟩
  | case2 word args f hdash =>
    cases h
    refine ⟨[], rfl, fun w hw => ?_, rfl⟩
    exact Option.some.inj hw ▸ hdash
  | case3 word args f hdash set hset ih =>
    obtain ⟨flags, rfl, hrest, rfl⟩ := ih h
    obtain ⟨x, hx, rfl⟩ := plainFlag_some hset
    exact ⟨x :: flags, by simp [flagWords, hx], hrest, rfl⟩
  | case4 word f hdash set value args hset _ ih =>
    obtain ⟨flags, rfl, hrest, rfl⟩ := ih h
    obtain ⟨x, hx, hset⟩ := valueFlag_some hset value
    exact ⟨x :: flags, by simp [flagWords, hx], hrest, by rw [hset]; rfl⟩
  | case5 => cases h

/-! ## The capability mask -/

/-- The name stands for the capability, in any case and with or without `CAP_`. -/
def Names (nr : Nat) (name : Bytes) : Prop :=
  ∃ cap, capNames[nr]? = some cap ∧
    (name.map toLower = cap.map toLower ∨ name.map toLower = (bytes "CAP_" ++ cap).map toLower)

instance (nr : Nat) (name : Bytes) : Decidable (Names nr name) :=
  match h : capNames[nr]? with
  | none => .isFalse fun ⟨cap, hcap, _⟩ => by rw [h] at hcap; cases hcap
  | some cap =>
    decidable_of_iff
      (name.map toLower = cap.map toLower ∨ name.map toLower = (bytes "CAP_" ++ cap).map toLower)
      ⟨fun hname => ⟨cap, h, hname⟩, fun ⟨cap', hcap, hname⟩ => by
        rw [h] at hcap
        exact Option.some.inj hcap ▸ hname⟩

/-- No two entries of the table are spelled alike. -/
theorem gCapNames_nodup : (gCapNames.map fun x => x.1.map toLower).Nodup := by decide +kernel

theorem mem_gCapNames {x : Bytes × Nat} :
    x ∈ gCapNames ↔
      ∃ cap, capNames[x.2]? = some cap ∧ (x.1 = bytes "CAP_" ++ cap ∨ x.1 = cap) := by
  obtain ⟨spelling, nr⟩ := x
  unfold gCapNames
  rw [List.mem_flatMap]
  constructor
  · rintro ⟨⟨cap, n⟩, hmem, hx⟩
    have hcap := List.mem_zipIdx_iff_getElem?.mp hmem
    simp only [List.mem_cons, Prod.mk.injEq, List.not_mem_nil, or_false] at hx
    rcases hx with ⟨rfl, rfl⟩ | ⟨rfl, rfl⟩
    · exact ⟨cap, hcap, .inl rfl⟩
    · exact ⟨spelling, hcap, .inr rfl⟩
  · rintro ⟨cap, hcap, hx⟩
    refine ⟨(cap, nr), List.mem_zipIdx_iff_getElem?.mpr hcap, ?_⟩
    rcases hx with rfl | rfl <;> simp

/-- The table is searched for the capability the name stands for. -/
theorem securityCapNumber_eq_some {name : Bytes} {nr : Nat} :
    securityCapNumber name = some nr ↔ Names nr name := by
  unfold securityCapNumber Names
  rw [Option.map_eq_some_iff]
  constructor
  · rintro ⟨x, hfind, rfl⟩
    obtain ⟨cap, hcap, hx⟩ := mem_gCapNames.mp (List.mem_of_find?_eq_some hfind)
    have hname := List.find?_some hfind
    simp only [decide_eq_true_eq] at hname
    rcases hx with hx | hx
    · exact ⟨cap, hcap, .inr (hx ▸ hname)⟩
    · exact ⟨cap, hcap, .inl (hx ▸ hname)⟩
  · rintro ⟨cap, hcap, hname⟩
    -- the entry of this spelling is the one that the search stops at
    obtain ⟨spelling, hspelling, hmem⟩ : ∃ spelling, name.map toLower = spelling.map toLower ∧
        (spelling, nr) ∈ gCapNames := by
      rcases hname with hname | hname
      · exact ⟨cap, hname, mem_gCapNames.mpr ⟨cap, hcap, .inr rfl⟩⟩
      · exact ⟨_, hname, mem_gCapNames.mpr ⟨cap, hcap, .inl rfl⟩⟩
    have hany : (gCapNames.find? fun x => name.map toLower = x.1.map toLower).isSome := by
      rw [List.find?_isSome]
      exact ⟨_, hmem, decide_eq_true hspelling⟩
    obtain ⟨x, hfind⟩ := Option.isSome_iff_exists.mp hany
    have hx := List.find?_some hfind
    simp only [decide_eq_true_eq] at hx
    have hsame : x = (spelling, nr) :=
      List.inj_on_of_nodup_map gCapNames_nodup (List.mem_of_find?_eq_some hfind) hmem
        (hx.symm.trans hspelling)
    exact ⟨x, hfind, by rw [hsame]⟩

theorem names_lt {nr : Nat} {name : Bytes} (h : Names nr name) : nr < 38 := by
  obtain ⟨cap, hcap, -⟩ := h
  obtain ⟨hlt, -⟩ := List.getElem?_eq_some_iff.mp hcap
  exact hlt

/-- A capability has one number. -/
theorem Names.unique {nr nr' : Nat} {name : Bytes} (h : Names nr name) (h' : Names nr' name) :
    nr = nr' :=
  Option.some.inj
    ((securityCapNumber_eq_some.mpr h).symm.trans (securityCapNumber_eq_some.mpr h'))

/-- The mask keeps the capability. -/
def SecurityConfig.keeps (cfg : SecurityConfig) (nr : Nat) : Bool := cfg.capKeep.toNat.testBit nr

theorem capBit_testBit {nr : Nat} (hnr : nr < 64) (c : Nat) :
    ((1 : UInt64) <<< UInt64.ofNat nr).toNat.testBit c = decide (nr = c) := by
  have hshift : (UInt64.ofNat nr).toNat % 64 = nr := by
    rw [UInt64.toNat_ofNat']
    omega
  have hlt : 2 ^ nr < 2 ^ 64 := Nat.pow_lt_pow_right (by omega) hnr
  rw [UInt64.toNat_shiftLeft, hshift, UInt64.toNat_one, Nat.one_shiftLeft, Nat.mod_eq_of_lt hlt]
  exact Nat.testBit_two_pow

/-- Adding or dropping a capability decides its bit and no other. -/
theorem keeps_setCap (add : Bool) (cfg : SecurityConfig) {nr c : Nat} (hnr : nr < 64)
    (hc : c < 64) :
    SecurityConfig.keeps (setCap add cfg nr) c =
      if nr = c then add else SecurityConfig.keeps cfg c := by
  have hbit := capBit_testBit hnr c
  unfold setCap SecurityConfig.keeps
  cases add with
  | true =>
    rw [if_pos rfl, securityCapAdd, if_neg (by omega)]
    simp only [UInt64.toNat_or, Nat.testBit_or, hbit]
    split
    · rename_i hsame
      simp [hsame]
    · rename_i hother
      simp [hother]
  | false =>
    rw [if_neg (by decide), securityCapDrop, if_neg (by omega)]
    simp only [UInt64.toNat_and, UInt64.toNat_not, Nat.testBit_and]
    have hnot : (UInt64.size - 1 - ((1 : UInt64) <<< UInt64.ofNat nr).toNat).testBit c =
        !decide (nr = c) := by
      rw [show UInt64.size - 1 - ((1 : UInt64) <<< UInt64.ofNat nr).toNat =
        2 ^ 64 - (((1 : UInt64) <<< UInt64.ofNat nr).toNat + 1) from by
          rw [Nat.sub_sub, Nat.add_comm]; rfl,
        Nat.testBit_two_pow_sub_succ (UInt64.toNat_lt _), hbit]
      simp [hc]
    rw [hnot]
    split
    · rename_i hsame
      simp [hsame]
    · rename_i hother
      simp [hother]

/-- The mask is decided by its bits. -/
theorem capKeep_ext {m m' : UInt64} (h : ∀ c < 64, m.toNat.testBit c = m'.toNat.testBit c) :
    m = m' := by
  apply UInt64.toNat_inj.mp
  apply Nat.eq_of_testBit_eq
  intro c
  by_cases hc : c < 64
  · exact h c hc
  · have hbig : 2 ^ 64 ≤ 2 ^ c := Nat.pow_le_pow_right (by omega) (by omega)
    rw [Nat.testBit_lt_two_pow (Nat.lt_of_lt_of_le m.toNat_lt hbig),
      Nat.testBit_lt_two_pow (Nat.lt_of_lt_of_le m'.toNat_lt hbig)]

theorem keeps_default {c : Nat} (hc : c ≤ 37) :
    SecurityConfig.keeps securityConfigDefault c = decide (c ∈ capDefaultKeepBits) := by
  have hall : (List.range 38).all (fun c =>
      SecurityConfig.keeps securityConfigDefault c == decide (c ∈ capDefaultKeepBits)) = true := by
    decide +kernel
  exact eq_of_beq (List.all_eq_true.mp hall c (List.mem_range.mpr (by omega)))

theorem keeps_none {c : Nat} (hc : c ≤ 37) : SecurityConfig.keeps securityConfigNone c = true := by
  have hall : (List.range 38).all (SecurityConfig.keeps securityConfigNone) = true := by
    decide +kernel
  exact List.all_eq_true.mp hall c (List.mem_range.mpr (by omega))

/-- Whether a flag keeps or drops a capability, if it is about it. -/
def Flag.keeps (c : Nat) : Flag → Option Bool
  | .privileged => some true
  | .cap add name => if Names c name then some add else none
  | _ => none

/-- What the last flag about a capability says. -/
def lastKeeps (c : Nat) (flags : List Flag) : Option Bool :=
  (flags.filterMap (Flag.keeps c)).getLast?

/-- The last value that the elements of a list give. -/
theorem getLast?_filterMap_snoc {α β : Type*} (value : α → Option β) (l : List α) (x : α) :
    ((l ++ [x]).filterMap value).getLast? = (value x).or (l.filterMap value).getLast? := by
  rw [List.filterMap_append]
  cases hx : value x with
  | none => simp [hx]
  | some v => simp [hx]

theorem lastKeeps_snoc (c : Nat) (flags : List Flag) (x : Flag) :
    lastKeeps c (flags ++ [x]) = (x.keeps c).or (lastKeeps c flags) :=
  getLast?_filterMap_snoc (Flag.keeps c) flags x

/-- One flag decides the bit of a capability that it is about. -/
theorem keeps_set (x : Flag) (f : LimitFlags) {c : Nat} (hc : c ≤ 37) :
    SecurityConfig.keeps (x.set f).security c =
      (x.keeps c).getD (SecurityConfig.keeps f.security c) := by
  cases x with
  | limit l value => rfl
  | rm => rfl
  | publish short maps => rfl
  | readOnly => rfl
  | privileged => exact keeps_none hc
  | cap add name =>
    show SecurityConfig.keeps (setName add name f.security) c =
      (if Names c name then some add else none).getD (SecurityConfig.keeps f.security c)
    unfold setName
    cases hnr : securityCapNumber name with
    | none =>
      have hnot : ¬ Names c name := by
        rw [← securityCapNumber_eq_some, hnr]
        exact fun h => by cases h
      rw [if_neg hnot]
      rfl
    | some nr =>
      have hnames := securityCapNumber_eq_some.mp hnr
      have hlt := names_lt hnames
      rw [Option.elim_some, keeps_setCap add f.security (by omega) (by omega)]
      by_cases hsame : nr = c
      · rw [if_pos hsame, if_pos (hsame ▸ hnames)]
        rfl
      · rw [if_neg hsame, if_neg fun h => hsame (hnames.unique h)]
        rfl

theorem keeps_setFlags (flags : List Flag) (f : LimitFlags) {c : Nat} (hc : c ≤ 37) :
    SecurityConfig.keeps (setFlags flags f).security c =
      (lastKeeps c flags).getD (SecurityConfig.keeps f.security c) := by
  induction flags using List.reverseRecOn with
  | nil => rfl
  | append_singleton flags x ih =>
    rw [setFlags_snoc, keeps_set x _ hc, lastKeeps_snoc, ih]
    cases x.keeps c <;> rfl

/-- A capability is added to or dropped from the mask alone. -/
theorem setCap_eq (add : Bool) (cfg : SecurityConfig) (nr : Nat) :
    setCap add cfg nr = { cfg with capKeep := (setCap add cfg nr).capKeep } := by
  unfold setCap securityCapAdd securityCapDrop
  split <;> split <;> rfl

theorem setName_eq (add : Bool) (name : Bytes) (cfg : SecurityConfig) :
    setName add name cfg = { cfg with capKeep := (setName add name cfg).capKeep } := by
  unfold setName
  cases securityCapNumber name with
  | none => rfl
  | some nr => exact setCap_eq add cfg nr

/-- A field that `--privileged` sets and no other flag touches. -/
theorem setFlags_field {α : Type} {field : SecurityConfig → α} {v : α}
    (hset : ∀ f, field (Flag.privileged.set f).security = v)
    (hkeep : ∀ (x : Flag) f, x ≠ .privileged → field (x.set f).security = field f.security)
    (flags : List Flag) (f : LimitFlags) :
    field (setFlags flags f).security = if .privileged ∈ flags then v else field f.security := by
  induction flags generalizing f with
  | nil => rfl
  | cons x flags ih =>
    rw [setFlags_cons, ih (x.set f)]
    by_cases hmem : Flag.privileged ∈ flags
    · rw [if_pos hmem, if_pos (List.mem_cons_of_mem _ hmem)]
    · rw [if_neg hmem]
      by_cases hx : x = .privileged
      · subst hx
        rw [if_pos List.mem_cons_self, hset]
      · rw [if_neg fun h => (List.mem_cons.mp h).elim (hx ·.symm) hmem, hkeep x f hx]

theorem seccomp_setFlags (flags : List Flag) (f : LimitFlags) :
    (setFlags flags f).security.seccompEnabled =
      if .privileged ∈ flags then 0 else f.security.seccompEnabled := by
  refine setFlags_field (fun _ => rfl) (fun x f hx => ?_) flags f
  cases x with
  | privileged => exact absurd rfl hx
  | cap add name =>
    show (setName add name f.security).seccompEnabled = f.security.seccompEnabled
    rw [setName_eq]
  | _ => rfl

/-- From the default profile a capability is kept or dropped by the last flag
that is about it, and without one as by default; the filter stays on as long as
`--privileged` is not among the flags. -/
theorem last_cap_flag {args rest : List Bytes} {f f' : LimitFlags}
    (hstart : f.security = securityConfigDefault)
    (h : parseLimitFlags args f = some (f', rest)) :
    (∃ flags, args = flagWords flags ++ rest) ∧
      ∀ flags, args = flagWords flags ++ rest →
        (∀ c ≤ 37, f'.security.capKeep.toNat.testBit c =
          (lastKeeps c flags).getD (decide (c ∈ capDefaultKeepBits))) ∧
        f'.security.seccompEnabled = if .privileged ∈ flags then 0 else 1 := by
  obtain ⟨flags, rfl, hrest, -⟩ := parseLimitFlags_flags h
  refine ⟨⟨flags, rfl⟩, fun flags' hwords => ?_⟩
  rw [hwords, parseLimitFlags_words flags' hrest] at h
  obtain ⟨rfl, -⟩ := Prod.ext_iff.mp (Option.some.inj h)
  refine ⟨fun c hc => ?_, ?_⟩
  · have hkeeps := keeps_setFlags flags' f hc
    rwa [hstart, keeps_default hc] at hkeeps
  · rw [seccomp_setFlags, hstart]
    rfl

/-- `--privileged --cap-drop net_admin --cap-add Cap_Net_Admin --cap-drop kill`. -/
theorem last_cap_flag_net_admin :
    let words := ["--privileged", "--cap-drop", "net_admin", "--cap-add", "Cap_Net_Admin",
      "--cap-drop", "kill", "web"].map bytes
    ∃ f' rest, parseLimitFlags words .run = some (f', rest) ∧
      f'.security.capKeep.toNat.testBit 12 = true ∧ f'.security.capKeep.toNat.testBit 5 = false ∧
      f'.security.seccompEnabled = 0 := by
  intro words
  let flags : List Flag := [.privileged, .cap false (bytes "net_admin"),
    .cap true (bytes "Cap_Net_Admin"), .cap false (bytes "kill")]
  have hrest : NoFlag [bytes "web"] := by
    intro word hword
    rw [← Option.some.inj hword]
    decide
  have hparse := parseLimitFlags_words flags hrest .run
  obtain ⟨-, hall⟩ := last_cap_flag rfl hparse
  obtain ⟨hcaps, hseccomp⟩ := hall flags rfl
  refine ⟨_, _, hparse, ?_, ?_, hseccomp⟩
  · rw [hcaps 12 (by omega)]
    decide +kernel
  · rw [hcaps 5 (by omega)]
    decide +kernel

/-! ## Changing places -/

/-- What the options are about. -/
inductive Setting where
  | limit (limit : Limit)
  | autoRemove
  | portMaps
  | readOnly
  | privileged
  | seccomp
  | cap (nr : Nat)
  deriving DecidableEq

/-- The flag is of the option for the setting. -/
def Flag.Sets : Flag → Setting → Prop
  | .limit l _, s => s = .limit l
  | .rm, s => s = .autoRemove
  | .publish _ _, s => s = .portMaps
  | .readOnly, s => s = .readOnly
  | .privileged, s => s = .privileged ∨ s = .seccomp ∨ ∃ nr, s = .cap nr
  | .cap _ name, s => ∃ nr, Names nr name ∧ s = .cap nr

/-- The flags are of different options. -/
def Differ (x y : Flag) : Prop := ∀ s, x.Sets s → ¬ y.Sets s

theorem Differ.symm {x y : Flag} (h : Differ x y) : Differ y x := fun s hy hx => h s hx hy

/-- The capabilities of two numbers change places. -/
theorem setCap_comm (add add' : Bool) (cfg : SecurityConfig) {nr nr' : Nat} (hnr : nr < 64)
    (hnr' : nr' < 64) (hne : nr ≠ nr') :
    setCap add (setCap add' cfg nr') nr = setCap add' (setCap add cfg nr) nr' := by
  have hmask : (setCap add (setCap add' cfg nr') nr).capKeep =
      (setCap add' (setCap add cfg nr) nr').capKeep := by
    apply capKeep_ext
    intro c hc
    show SecurityConfig.keeps _ c = SecurityConfig.keeps _ c
    rw [keeps_setCap add _ hnr hc, keeps_setCap add' _ hnr' hc, keeps_setCap add' _ hnr' hc,
      keeps_setCap add _ hnr hc]
    split
    · rename_i hsame
      rw [if_neg (by omega)]
    · rfl
  rw [setCap_eq add (setCap add' cfg nr'), setCap_eq add' (setCap add cfg nr), hmask,
    setCap_eq add' cfg nr', setCap_eq add cfg nr]

/-- The two flags that overwrite the same field although their options differ. -/
def Clash (x y : Flag) : Prop :=
  x = .readOnly ∧ y = .privileged ∨ x = .privileged ∧ y = .readOnly

instance (x y : Flag) : Decidable (Clash x y) := by
  unfold Clash
  infer_instance

theorem Clash.symm {x y : Flag} (h : Clash x y) : Clash y x := by
  unfold Clash at h ⊢
  tauto

/-- The names change places with each other and with `--read-only`. -/
theorem setName_comm (add add' : Bool) {name name' : Bytes}
    (h : ∀ nr, Names nr name → ¬ Names nr name') (cfg : SecurityConfig) :
    setName add name (setName add' name' cfg) = setName add' name' (setName add name cfg) := by
  unfold setName
  cases hnr : securityCapNumber name with
  | none => rfl
  | some nr =>
    cases hnr' : securityCapNumber name' with
    | none => rfl
    | some nr' =>
      have hnames := securityCapNumber_eq_some.mp hnr
      have hnames' := securityCapNumber_eq_some.mp hnr'
      have hlt := names_lt hnames
      have hlt' := names_lt hnames'
      have hne : nr ≠ nr' := by
        rintro rfl
        exact h nr hnames hnames'
      exact setCap_comm add add' cfg (by omega) (by omega) hne

theorem setName_readOnly (add : Bool) (name : Bytes) (cfg : SecurityConfig) (v : Int) :
    setName add name { cfg with readonlyRootfs := v } =
      { setName add name cfg with readonlyRootfs := v } := by
  unfold setName
  cases securityCapNumber name with
  | none => rfl
  | some nr =>
    simp only [Option.elim_some]
    unfold setCap securityCapAdd securityCapDrop
    split <;> split <;> rfl

/-- A flag changes places with a capability. -/
theorem cap_set_comm (add : Bool) (name : Bytes) {x : Flag} (h : Differ x (.cap add name))
    (f : LimitFlags) :
    (Flag.cap add name).set (x.set f) = x.set ((Flag.cap add name).set f) := by
  cases x with
  | limit l value => rfl
  | rm => rfl
  | publish short maps => rfl
  | readOnly => exact congrArg (fun s => { f with security := s }) (setName_readOnly add name _ 1)
  | privileged =>
    have hnone : securityCapNumber name = none := by
      by_contra hsome
      obtain ⟨nr, hnr⟩ := Option.ne_none_iff_exists'.mp hsome
      exact h (.cap nr) (.inr (.inr ⟨nr, rfl⟩)) ⟨nr, securityCapNumber_eq_some.mp hnr, rfl⟩
    show { f with security := setName add name securityConfigNone } =
      { f with security := securityConfigNone }
    unfold setName
    rw [hnone]
    rfl
  | cap add' name' =>
    refine congrArg (fun s => { f with security := s }) (setName_comm add add' ?_ f.security)
    exact fun nr hname hname' => h (.cap nr) ⟨nr, hname', rfl⟩ ⟨nr, hname, rfl⟩

/-- Flags of different options change places. -/
theorem set_comm {x y : Flag} (h : Differ x y) (hclash : ¬ Clash x y) (f : LimitFlags) :
    y.set (x.set f) = x.set (y.set f) := by
  cases y with
  | cap add name => exact cap_set_comm add name h f
  | limit l value =>
    cases x with
    | cap add name => exact (cap_set_comm add name h.symm f).symm
    | limit l' value' =>
      have hne : l' ≠ l := fun hsame => h (.limit l') rfl (hsame ▸ rfl)
      cases l <;> cases l' <;> first | rfl | exact absurd rfl hne
    | _ => rfl
  | rm =>
    cases x with
    | cap add name => exact (cap_set_comm add name h.symm f).symm
    | _ => rfl
  | publish short maps =>
    cases x with
    | cap add name => exact (cap_set_comm add name h.symm f).symm
    | publish short' maps' => exact absurd rfl (h .portMaps rfl)
    | _ => rfl
  | readOnly =>
    cases x with
    | cap add name => exact (cap_set_comm add name h.symm f).symm
    | privileged => exact absurd (.inr ⟨rfl, rfl⟩) hclash
    | _ => rfl
  | privileged =>
    cases x with
    | cap add name => exact (cap_set_comm add name h.symm f).symm
    | readOnly => exact absurd (.inl ⟨rfl, rfl⟩) hclash
    | _ => rfl

/-- The same but for the read-only rootfs. -/
def withReadOnly (v : Int) (f : LimitFlags) : LimitFlags :=
  { f with security := { f.security with readonlyRootfs := v } }

/-- `--read-only` and `--privileged` overwrite what was asked of the rootfs, the
other flags leave it as it is. -/
theorem set_withReadOnly (x : Flag) (v : Int) (f : LimitFlags) :
    x.set (withReadOnly v f) =
      if x = .readOnly ∨ x = .privileged then x.set f else withReadOnly v (x.set f) := by
  cases x with
  | readOnly => rfl
  | privileged => rfl
  | cap add name =>
    rw [if_neg (by simp)]
    exact congrArg (fun s => { f with security := s }) (setName_readOnly add name f.security v)
  | _ =>
    rw [if_neg (by simp)]
    rfl

theorem setFlags_withReadOnly (flags : List Flag) (v : Int) (f : LimitFlags) :
    setFlags flags (withReadOnly v f) =
      if .readOnly ∈ flags ∨ .privileged ∈ flags then setFlags flags f
      else withReadOnly v (setFlags flags f) := by
  induction flags generalizing f with
  | nil => rfl
  | cons x flags ih =>
    rw [setFlags_cons, set_withReadOnly]
    split
    · rename_i hx
      have hmem : .readOnly ∈ x :: flags ∨ .privileged ∈ x :: flags := by
        rcases hx with rfl | rfl <;> simp
      rw [if_pos hmem, setFlags_cons]
    · rename_i hx
      have hmem : (.readOnly ∈ x :: flags ∨ .privileged ∈ x :: flags) ↔
          (.readOnly ∈ flags ∨ .privileged ∈ flags) := by
        push Not at hx
        simp [hx.1.symm, hx.2.symm]
      rw [ih (x.set f), setFlags_cons]
      simp only [hmem]

/-- No flag takes the privileged mode back. -/
theorem privileged_setFlags (flags : List Flag) (f : LimitFlags) :
    (setFlags flags f).security.privileged =
      if .privileged ∈ flags then 1 else f.security.privileged := by
  refine setFlags_field (fun _ => rfl) (fun x f hx => ?_) flags f
  cases x with
  | privileged => exact absurd rfl hx
  | cap add name =>
    show (setName add name f.security).privileged = f.security.privileged
    rw [setName_eq]
  | _ => rfl

/-- The condition of `security_apply_readonly` in the child. -/
def remountsReadonly (cfg : SecurityConfig) : Bool := cfg.readonlyRootfs ≠ 0 && cfg.privileged = 0

/-- What the order of the clashing flags decides: the field for the rootfs. -/
theorem clash_set (f : LimitFlags) :
    Flag.readOnly.set (Flag.privileged.set f) =
      withReadOnly 1 (Flag.privileged.set (Flag.readOnly.set f)) := rfl

theorem setFlags_clash (post : List Flag) (f : LimitFlags) :
    let f₁ := setFlags post (Flag.privileged.set (Flag.readOnly.set f))
    let f₂ := setFlags post (Flag.readOnly.set (Flag.privileged.set f))
    f₁.limits = f₂.limits ∧ f₁.autoRemove = f₂.autoRemove ∧
      { f₁.security with readonlyRootfs := 0 } = { f₂.security with readonlyRootfs := 0 } ∧
      remountsReadonly f₁.security = remountsReadonly f₂.security ∧
      (f₁.security = f₂.security ↔ .readOnly ∈ post ∨ .privileged ∈ post) := by
  intro f₁ f₂
  -- the two orders differ by the readonly bit alone
  have hf₂ : f₂ = if .readOnly ∈ post ∨ .privileged ∈ post then f₁ else withReadOnly 1 f₁ := by
    show setFlags post (Flag.readOnly.set (Flag.privileged.set f)) = _
    rw [clash_set]
    exact setFlags_withReadOnly post 1 (Flag.privileged.set (Flag.readOnly.set f))
  have hprivileged : f₁.security.privileged = 1 := by
    rw [privileged_setFlags]
    exact ite_self 1
  by_cases hlater : .readOnly ∈ post ∨ .privileged ∈ post
  · rw [if_pos hlater] at hf₂
    rw [hf₂]
    exact ⟨rfl, rfl, rfl, rfl, iff_of_true rfl hlater⟩
  · rw [if_neg hlater] at hf₂
    have hzero : f₁.security.readonlyRootfs = 0 := by
      have hwith : withReadOnly 0 f₁ = f₁ := by
        have hset := setFlags_withReadOnly post 0 (Flag.privileged.set (Flag.readOnly.set f))
        rw [if_neg hlater] at hset
        exact hset.symm
      rw [← hwith]
      rfl
    rw [hf₂]
    refine ⟨rfl, rfl, rfl, ?_, iff_of_false (fun hsame => ?_) hlater⟩
    · simp [remountsReadonly, withReadOnly, hprivileged]
    · have hone : f₁.security.readonlyRootfs = 1 := by
        rw [hsame]
        rfl
      omega

/-- Two neighbouring flags of different options may change places: the limits,
the automatic removal and the profile stay the same. `--privileged` replaces
the whole profile, so a `--read-only` in front of it is kept as a field only if
the two change places and neither follows; the container's rootfs is not
remounted either way. -/
theorem exchange_flags {args rest : List Bytes} {f f₁ : LimitFlags} {pre post : List Flag}
    {x y : Flag} (h : parseLimitFlags args f = some (f₁, rest))
    (hargs : args = flagWords (pre ++ x :: y :: post) ++ rest) (hdiffer : Differ x y) :
    ∃ f₂, parseLimitFlags (flagWords (pre ++ y :: x :: post) ++ rest) f = some (f₂, rest) ∧
      f₁.limits = f₂.limits ∧ f₁.autoRemove = f₂.autoRemove ∧
      { f₁.security with readonlyRootfs := 0 } = { f₂.security with readonlyRootfs := 0 } ∧
      remountsReadonly f₁.security = remountsReadonly f₂.security ∧
      (f₁.security = f₂.security ↔
        (Clash x y → .readOnly ∈ post ∨ .privileged ∈ post)) := by
  obtain ⟨-, -, hrest, -⟩ := parseLimitFlags_flags h
  rw [hargs, parseLimitFlags_words _ hrest] at h
  obtain ⟨rfl, -⟩ := Prod.ext_iff.mp (Option.some.inj h)
  refine ⟨_, parseLimitFlags_words _ hrest f, ?_⟩
  simp only [setFlags_append, setFlags_cons]
  by_cases hclash : Clash x y
  · simp only [hclash, forall_const]
    rcases hclash with ⟨rfl, rfl⟩ | ⟨rfl, rfl⟩
    · exact setFlags_clash post (setFlags pre f)
    · obtain ⟨hlimits, hremove, hrestricted, hremount, hsecurity⟩ :=
        setFlags_clash post (setFlags pre f)
      exact ⟨hlimits.symm, hremove.symm, hrestricted.symm, hremount.symm,
        eq_comm.trans hsecurity⟩
  · rw [set_comm hdiffer hclash]
    exact ⟨rfl, rfl, rfl, rfl, iff_of_true rfl fun hc => absurd hc hclash⟩

/-- `--cpu 5 --rm` and `--rm --cpu 5`. -/
theorem exchange_flags_cpu_rm :
    ∃ f₂, parseLimitFlags (["--rm", "--cpu", "5", "web"].map bytes) .run =
        some (f₂, [bytes "web"]) ∧ f₂.limits.cpuSeconds = 5 ∧ f₂.autoRemove = some true := by
  have hparse : parseLimitFlags (["--cpu", "5", "--rm", "web"].map bytes) .run =
      some (Flag.rm.set ((Flag.limit .cpu (bytes "5")).set .run), [bytes "web"]) := rfl
  have hdiffer : Differ (.limit .cpu (bytes "5")) .rm := by
    intro s hx hy
    cases hx
    cases hy
  obtain ⟨f₂, hf₂, hlimits, hremove, -⟩ :=
    @exchange_flags _ _ _ _ [] [] (.limit .cpu (bytes "5")) .rm hparse rfl hdiffer
  refine ⟨f₂, hf₂, ?_, ?_⟩
  · rw [← hlimits]
    decide +kernel
  · rw [← hremove]
    rfl

/-- `--read-only --privileged` and `--privileged --read-only` leave different
profiles. -/
theorem not_exchange_flags :
    ¬ ∀ (rest : List Bytes) (f f₁ f₂ : LimitFlags) (pre post : List Flag) (x y : Flag),
      Differ x y →
      parseLimitFlags (flagWords (pre ++ x :: y :: post) ++ rest) f = some (f₁, rest) →
      parseLimitFlags (flagWords (pre ++ y :: x :: post) ++ rest) f = some (f₂, rest) →
      f₁.limits = f₂.limits ∧ f₁.autoRemove = f₂.autoRemove ∧ f₁.security = f₂.security := by
  intro hclaim
  have hdiffer : Differ .readOnly .privileged := by
    rintro s rfl (hs | hs | ⟨nr, hs⟩) <;> cases hs
  obtain ⟨-, -, hsecurity⟩ := hclaim [] .run _ _ [] [] .readOnly .privileged hdiffer rfl rfl
  revert hsecurity
  decide

end ContainerSim.Cli
