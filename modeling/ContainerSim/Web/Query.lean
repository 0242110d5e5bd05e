import ContainerSim.Web.Routes

/-!
# The parameters of a query

`qs_int` takes the first place of the query string at which `key=` stands, in
whatever parameter that is. It reads the parameter of that name exactly if a
parameter begins there and its number is an `int`; the number of another
parameter is the right one by accident at best (`qsInt_byName_iff`).
-/

namespace ContainerSim.Web

open Lib ContainerSim.Runtime

/-- The parameters `key=value` of a query string, separated by `&`. -/
def queryPairs (qs : Bytes) : List (Bytes × Bytes) :=
  (qs.splitOn 38).filterMap fun param =>
    if 61 ∈ param then some (param.takeWhile (· ≠ 61), (param.dropWhile (· ≠ 61)).drop 1) else none

/-- The number of the first parameter of that name. -/
def queryInt (qs key : Bytes) (default : Int) : Int :=
  match (queryPairs qs).find? fun p => p.1 = key with
  | none => default
  | some p => atoi p.2

/-- A parameter begins behind the text. -/
def PairStart (pre : Bytes) : Prop := ∀ c ∈ pre.getLast?, c = 38

/-- The first place of `key=`, if there is one, is the beginning of a parameter
with an `int` for its number. -/
def ReadsByName (qs key : Bytes) : Prop :=
  ∀ pre post, FirstAt qs (key ++ [61]) pre post →
    PairStart pre ∧ -2 ^ 31 ≤ atoi post ∧ atoi post < 2 ^ 31

/-- The parameters of the name. -/
def named (key qs : Bytes) : List (Bytes × Bytes) := (queryPairs qs).filter fun p => p.1 = key

/-- The other parameters hold something else behind the first place of `key=`. -/
def OthersDiffer (key qs qs' : Bytes) : Prop :=
  (∃ pre post post', FirstAt qs (key ++ [61]) pre post ∧ FirstAt qs' (key ++ [61]) pre post') ∧
    named key qs' = named key qs

/-! ## The parameters of a text -/

theorem queryPairs_append (s t : Bytes) :
    queryPairs (s ++ 38 :: t) = queryPairs s ++ queryPairs t := by
  unfold queryPairs
  rw [List.splitOn_append_cons_self, List.filterMap_append]

theorem infix_intercalate {x : UInt8} {l : Bytes} {ls : List Bytes} (h : l ∈ ls) :
    l <:+: [x].intercalate ls := by
  induction ls with
  | nil => cases h
  | cons m ls ih =>
    cases ls with
    | nil =>
      obtain rfl := List.mem_singleton.mp h
      simp
    | cons k ls =>
      rw [List.intercalate_cons_cons]
      rcases List.mem_cons.mp h with rfl | h
      · rw [List.append_assoc]
        exact (List.prefix_append _ _).isInfix
      · exact (ih h).trans (List.suffix_append _ _).isInfix

/-- The part of a text in front of a character. -/
theorem takeWhile_ne_cases (x : UInt8) (s : Bytes) :
    (x ∉ s ∧ s.takeWhile (· ≠ x) = s) ∨ ∃ rest, s = s.takeWhile (· ≠ x) ++ x :: rest := by
  have hsplit := List.takeWhile_append_dropWhile (p := fun c => decide (c ≠ x)) (l := s)
  cases hrest : s.dropWhile (· ≠ x) with
  | nil =>
    refine .inl ⟨fun hx => ?_, ?_⟩
    · have hall := List.dropWhile_eq_nil_iff.mp hrest x hx
      simp at hall
    · rwa [hrest, List.append_nil] at hsplit
  | cons c rest =>
    have hc : c = x := by
      have hhead := List.head?_dropWhile_not (fun c : UInt8 => decide (c ≠ x)) s
      rw [hrest] at hhead
      simpa using hhead
    refine .inr ⟨rest, ?_⟩
    rw [hrest, hc] at hsplit
    exact hsplit.symm

/-- A parameter begins with its name and `=`. -/
theorem prefix_of_mem {param : Bytes} (h : 61 ∈ param) :
    param.takeWhile (· ≠ 61) ++ [61] <+: param := by
  rcases takeWhile_ne_cases 61 param with ⟨hno, -⟩ | ⟨rest, hrest⟩
  · exact absurd h hno
  · refine ⟨rest, ?_⟩
    rw [List.append_assoc]
    exact hrest.symm

/-- A parameter stands in the text with its name and `=` in front of it. -/
theorem infix_of_mem_queryPairs {qs key value : Bytes} (h : (key, value) ∈ queryPairs qs) :
    key ++ [61] <:+: qs := by
  obtain ⟨param, hparam, hpair⟩ := List.mem_filterMap.mp h
  have hinfix : param <:+: qs := by
    have hall := infix_intercalate (x := 38) hparam
    rwa [List.intercalate_splitOn] at hall
  refine List.IsInfix.trans ?_ hinfix
  by_cases heq : 61 ∈ param
  · rw [if_pos heq] at hpair
    obtain ⟨rfl, -⟩ := Prod.mk.inj (Option.some.inj hpair)
    exact (prefix_of_mem heq).isInfix
  · rw [if_neg heq] at hpair
    cases hpair

theorem queryPairs_single {key value : Bytes} (hname : 61 ∉ key) (hamp : 38 ∉ key)
    (hvalue : 38 ∉ value) : queryPairs (key ++ 61 :: value) = [(key, value)] := by
  have hmem : 38 ∉ key ++ 61 :: value := by simp [hamp, hvalue]
  have hkey : ∀ c ∈ key, decide (c ≠ 61) = true := by
    intro c hc
    rw [decide_eq_true_eq]
    rintro rfl
    exact hname hc
  have htake : (key ++ 61 :: value).takeWhile (· ≠ 61) = key := by
    rw [List.takeWhile_append_of_pos hkey]
    simp
  have hdrop : (key ++ 61 :: value).dropWhile (· ≠ 61) = 61 :: value := by
    rw [List.dropWhile_append_of_pos hkey]
    simp
  rw [queryPairs, List.splitOn_eq_singleton hmem, List.filterMap_cons, if_pos (by simp), htake,
    hdrop]
  exact rfl

/-- A text that begins with `key=` begins with the parameter of that name. -/
theorem queryPairs_key {key : Bytes} (hname : 61 ∉ key) (hamp : 38 ∉ key) (post : Bytes) :
    ∃ rest, queryPairs (key ++ 61 :: post) = (key, post.takeWhile (· ≠ 38)) :: rest := by
  have hno : 38 ∉ post.takeWhile (· ≠ 38) := by
    intro h
    simpa using List.mem_takeWhile_imp h
  have hsingle := queryPairs_single hname hamp hno
  rcases takeWhile_ne_cases 38 post with ⟨-, hpost⟩ | ⟨rest, hpost⟩
  · rw [hpost] at hsingle ⊢
    exact ⟨[], hsingle⟩
  · refine ⟨queryPairs rest, ?_⟩
    have hsplit : key ++ 61 :: post = (key ++ 61 :: post.takeWhile (· ≠ 38)) ++ 38 :: rest := by
      conv_lhs => rw [hpost]
      simp
    rw [hsplit, queryPairs_append, hsingle]
    rfl

/-- The number ends with the parameter. -/
theorem atoi_takeWhile (s : Bytes) : atoi (s.takeWhile (· ≠ 38)) = atoi s := by
  rcases takeWhile_ne_cases 38 s with ⟨-, hs⟩ | ⟨rest, hs⟩
  · rw [hs]
  · conv_rhs => rw [hs]
    exact (atoi_append (by decide) (by decide) (by decide) (by decide) _ rest).symm

/-! ## What is read -/

theorem toInt32_range (x : Int) : -2 ^ 31 ≤ toInt32 x ∧ toInt32 x < 2 ^ 31 := by
  have hlow := Int.le_bmod (x := x) (show 0 < 2 ^ 32 by decide)
  have hhigh := Int.bmod_lt (x := x) (show 0 < 2 ^ 32 by decide)
  unfold toInt32
  constructor
  · omega
  · omega

/-- The cast to `int` keeps the numbers of that type and no others. -/
theorem toInt32_strtol_iff (s : Bytes) :
    toInt32 (strtol s).toInt = atoi s ↔ -2 ^ 31 ≤ atoi s ∧ atoi s < 2 ^ 31 := by
  constructor
  · intro h
    rw [← h]
    exact toInt32_range _
  · rintro ⟨hlow, hhigh⟩
    have hclamp : max (-2 ^ 63) (min (atoi s) (2 ^ 63 - 1)) = atoi s := by omega
    rw [strtol, hclamp, Int64.toInt_ofInt_of_le (by omega) (by omega), toInt32_of_fits hlow hhigh]

section
variable {qs key : Bytes} {default : Int}

theorem queryInt_eq_default (h : ¬ key ++ [61] <:+: qs) : queryInt qs key default = default := by
  have hnone : (queryPairs qs).find? (fun p => p.1 = key) = none := by
    rw [List.find?_eq_none]
    rintro ⟨name, value⟩ hmem hname
    obtain rfl : name = key := by simpa using hname
    exact h (infix_of_mem_queryPairs hmem)
  rw [queryInt, hnone]

/-- Where `key=` stands first at the beginning of a parameter, that is the first
parameter of the name. -/
theorem queryInt_eq_atoi (hname : 61 ∉ key) (hamp : 38 ∉ key) {pre post : Bytes}
    (h : FirstAt qs (key ++ [61]) pre post) (hstart : PairStart pre) :
    queryInt qs key default = atoi post := by
  have hsplit : qs = pre ++ (key ++ 61 :: post) := by
    rw [h.split, List.append_assoc, List.singleton_append]
  obtain ⟨rest, hrest⟩ := queryPairs_key hname hamp post
  -- the parameters in front have other names
  have hfind : (queryPairs qs).find? (fun p => p.1 = key) = some (key, post.takeWhile (· ≠ 38)) := by
    rcases List.eq_nil_or_concat pre with rfl | ⟨front, c, rfl⟩
    · rw [hsplit, List.nil_append, hrest]
      exact List.find?_cons_of_pos (by simp)
    · obtain rfl : c = 38 := hstart c (by simp)
      have hnone : (queryPairs front).find? (fun p => p.1 = key) = none := by
        rw [List.find?_eq_none]
        rintro ⟨name, value⟩ hmem heq
        obtain rfl : name = key := by simpa using heq
        obtain ⟨before, after, hfront⟩ := infix_of_mem_queryPairs hmem
        have hfirst := h.first before (after ++ 38 :: (name ++ 61 :: post)) (by
          rw [hsplit, ← hfront]
          simp)
        have hlen := congrArg List.length hfront
        simp at hfirst hlen
        omega
      rw [hsplit, List.concat_eq_append, List.append_assoc, List.singleton_append,
        queryPairs_append, List.find?_append, hnone, hrest, Option.none_or]
      exact List.find?_cons_of_pos (by simp)
  rw [queryInt, hfind]
  exact atoi_takeWhile post

/-- The result depends on the parameters of the name. -/
theorem queryInt_congr {qs' : Bytes} (h : named key qs' = named key qs) :
    queryInt qs' key default = queryInt qs key default := by
  have hhead := congrArg List.head? h
  rw [named, named, List.head?_filter, List.head?_filter] at hhead
  rw [queryInt, queryInt, hhead]

/-- The text `qs_int` searches for is not cut. -/
theorem qsInt_some (hlen : key.length ≤ 62) : qsInt (some qs) key default =
    match strstr qs (key ++ [61]) with
    | none => default
    | some p => toInt32 (strtol (p.drop (key ++ [61]).length)).toInt := by
  have hsearch : snprintfStr 64 (key ++ bytes "=") = key ++ [61] := by
    refine snprintfStr_eq_self ?_
    rw [List.length_append]
    show key.length + 1 ≤ 63
    omega
  cases hfound : strstr qs (key ++ [61]) with
  | none => simp only [qsInt, hsearch, hfound]
  | some p => simp only [qsInt, hsearch, hfound]

/-- What `qs_int` gives for the first place. -/
theorem qsInt_firstAt (hlen : key.length ≤ 62) {pre post : Bytes}
    (h : FirstAt qs (key ++ [61]) pre post) :
    qsInt (some qs) key default = toInt32 (strtol post).toInt := by
  rw [qsInt_some hlen, strstr_of_firstAt h]
  simp only [List.drop_left]

theorem qsInt_default (hlen : key.length ≤ 62) (h : ¬ key ++ [61] <:+: qs) :
    qsInt (some qs) key default = default := by
  rw [qsInt_some hlen, strstr_eq_none h]

end

/-! ## A place inside another parameter -/

/-- The parameter in which a text ends. -/
theorem exists_lastParam (pre : Bytes) : ∃ front param ps, pre = front ++ param ∧ 38 ∉ param ∧
    (param = [] → PairStart pre) ∧ ∀ s, queryPairs (front ++ s) = ps ++ queryPairs s := by
  rcases takeWhile_ne_cases 38 pre.reverse with ⟨hamp, -⟩ | ⟨rest, hrest⟩
  · refine ⟨[], pre, [], rfl, fun h => hamp (List.mem_reverse.mpr h), ?_, fun s => rfl⟩
    rintro rfl c hc
    cases hc
  · have hamp : 38 ∉ pre.reverse.takeWhile (· ≠ 38) := by
      intro h
      simpa using List.mem_takeWhile_imp h
    generalize pre.reverse.takeWhile (· ≠ 38) = last at hrest hamp
    have hpre : pre = (rest.reverse ++ [38]) ++ last.reverse := by
      rw [← List.reverse_reverse pre, hrest]
      simp
    refine ⟨rest.reverse ++ [38], last.reverse, queryPairs rest.reverse, hpre,
      fun h => hamp (List.mem_reverse.mp h), fun hnil => ?_, fun s => ?_⟩
    · rw [hpre, hnil, List.append_nil]
      intro c hc
      rw [List.getLast?_concat] at hc
      exact (Option.some.inj hc).symm
    · rw [List.append_assoc]
      exact queryPairs_append _ s

/-- The rest of a parameter, and what stands behind it. -/
theorem exists_firstParam (post : Bytes) : ∃ param tail ps, post = param ++ tail ∧ 38 ∉ param ∧
    (∀ s, queryPairs (s ++ tail) = queryPairs s ++ ps) ∧ ∀ s, atoi (s ++ tail) = atoi s := by
  rcases takeWhile_ne_cases 38 post with ⟨hamp, -⟩ | ⟨rest, hrest⟩
  · refine ⟨post, [], [], (List.append_nil post).symm, hamp, fun s => ?_, fun s => ?_⟩
    · rw [List.append_nil, List.append_nil]
    · rw [List.append_nil]
  · have hamp : 38 ∉ post.takeWhile (· ≠ 38) := by
      intro h
      simpa using List.mem_takeWhile_imp h
    refine ⟨post.takeWhile (· ≠ 38), 38 :: rest, queryPairs rest, hrest, hamp, fun s => ?_,
      fun s => ?_⟩
    · exact queryPairs_append s rest
    · exact atoi_append (by decide) (by decide) (by decide) (by decide) s rest

/-- A single parameter of another name. -/
theorem named_param {key param : Bytes} (hamp : 38 ∉ param) (h : ¬ key ++ [61] <+: param) :
    named key param = [] := by
  rw [named, queryPairs, List.splitOn_eq_singleton hamp, List.filterMap_cons]
  split
  · rfl
  · rename_i pair hpair
    by_cases heq : 61 ∈ param
    · rw [if_pos heq] at hpair
      obtain rfl := Option.some.inj hpair
      rw [List.filterMap_nil, List.filter_cons_of_neg, List.filter_nil]
      intro hname
      refine h ?_
      rw [← of_decide_eq_true hname]
      exact prefix_of_mem heq
    · rw [if_neg heq] at hpair
      cases hpair

/-- A query with a text behind `key=`. -/
def queryWith (pre key tail s : Bytes) : Bytes := pre ++ ((key ++ [61]) ++ (s ++ tail))

/-- Where `key=` stands first inside another parameter, that parameter decides
the result. -/
theorem exists_othersDiffer {qs key pre post : Bytes} (hlen : key.length ≤ 62) (hamp : 38 ∉ key)
    (h : FirstAt qs (key ++ [61]) pre post) (hstart : ¬ PairStart pre) (default : Int) :
    ∃ qs', OthersDiffer key qs qs' ∧
      qsInt (some qs') key default ≠ qsInt (some qs) key default := by
  obtain ⟨front, param, ps, hpre, hparam, hnil, hfront⟩ := exists_lastParam pre
  obtain ⟨text, tail, ps', hpost, htext, htail, hatoi⟩ := exists_firstParam post
  have hquery : queryWith pre key tail text = qs := by
    rw [queryWith, h.split, hpost]
  have hfirst : ∀ s, FirstAt (queryWith pre key tail s) (key ++ [61]) pre (s ++ tail) :=
    fun s => h.behind _
  -- whatever stands in the rest of the parameter, it has another name
  have hnamed : ∀ s, 38 ∉ s → named key (queryWith pre key tail s) =
      ps.filter (fun p => p.1 = key) ++ ps'.filter fun p => p.1 = key := by
    intro s hs
    have hsplit : queryWith pre key tail s =
        front ++ ((param ++ ((key ++ [61]) ++ s)) ++ tail) := by
      rw [queryWith, hpre]
      simp only [List.append_assoc]
    have hother : named key (param ++ ((key ++ [61]) ++ s)) = [] := by
      refine named_param (by simp [hparam, hamp, hs]) ?_
      rintro ⟨rest, hrest⟩
      -- `key=` would stand at the beginning of the parameter
      have hplace := (hfirst s).first front (rest ++ tail) (by
        rw [hsplit, ← hrest, List.append_assoc])
      rw [hpre, List.length_append] at hplace
      exact hstart (hnil (List.length_eq_zero_iff.mp (by omega)))
    rw [named, hsplit, hfront, htail, List.filter_append, List.filter_append]
    rw [named] at hother
    rw [hother, List.nil_append]
  -- two texts with different numbers
  have hresult : ∀ s, -2 ^ 31 ≤ atoi s → atoi s < 2 ^ 31 →
      qsInt (some (queryWith pre key tail s)) key default = atoi s := by
    intro s hlow hhigh
    rw [qsInt_firstAt hlen (hfirst s), (toInt32_strtol_iff _).mpr, hatoi]
    rw [hatoi]
    exact ⟨hlow, hhigh⟩
  have hdiffers : ∀ s, 38 ∉ s → OthersDiffer key qs (queryWith pre key tail s) := by
    intro s hs
    refine ⟨⟨pre, post, s ++ tail, h, hfirst s⟩, ?_⟩
    rw [hnamed s hs, ← hquery, hnamed text htext]
  have hzero := hresult (bytes "0") (by decide) (by decide)
  have hone := hresult (bytes "1") (by decide) (by decide)
  by_cases hqs : qsInt (some qs) key default = 0
  · refine ⟨queryWith pre key tail (bytes "1"), hdiffers _ (by decide), ?_⟩
    rw [hone, hqs]
    decide
  · refine ⟨queryWith pre key tail (bytes "0"), hdiffers _ (by decide), ?_⟩
    rw [hzero]
    exact fun heq => hqs heq.symm

/-! ## Exactly when -/

/-- `qs_int` reads the first parameter of the name, and no other parameter behind
the place it reads has a say, exactly if `key=` stands first where a parameter
begins and its number is an `int`. Among such queries no other parameter
matters at all. -/
theorem qsInt_byName_iff {key : Bytes} (hlen : key.length ≤ 62) (hname : 61 ∉ key)
    (hamp : 38 ∉ key) (qs : Bytes) (default : Int) :
    (qsInt (some qs) key default = queryInt qs key default ∧
        (∀ qs', OthersDiffer key qs qs' →
          qsInt (some qs') key default = qsInt (some qs) key default) ↔
      ReadsByName qs key) ∧
      ∀ qs', ReadsByName qs key → ReadsByName qs' key → named key qs' = named key qs →
        qsInt (some qs') key default = qsInt (some qs) key default := by
  have hreads : ∀ qs, ReadsByName qs key →
      qsInt (some qs) key default = queryInt qs key default := by
    intro qs h
    by_cases hin : key ++ [61] <:+: qs
    · obtain ⟨pre, post, hfirst⟩ := exists_firstAt hin
      obtain ⟨hstart, hint⟩ := h pre post hfirst
      rw [qsInt_firstAt hlen hfirst, queryInt_eq_atoi hname hamp hfirst hstart]
      exact (toInt32_strtol_iff post).mpr hint
    · rw [qsInt_default hlen hin, queryInt_eq_default hin]
  refine ⟨⟨?_, ?_⟩, ?_⟩
  · rintro ⟨hvalue, hothers⟩ pre post hfirst
    have hstart : PairStart pre := by
      by_contra hstart
      obtain ⟨qs', hdiffer, hne⟩ := exists_othersDiffer hlen hamp hfirst hstart default
      exact hne (hothers qs' hdiffer)
    rw [qsInt_firstAt hlen hfirst, queryInt_eq_atoi hname hamp hfirst hstart] at hvalue
    exact ⟨hstart, (toInt32_strtol_iff post).mp hvalue⟩
  · intro h
    refine ⟨hreads qs h, ?_⟩
    rintro qs' ⟨⟨pre, post, post', hfirst, hfirst'⟩, hsame⟩
    obtain ⟨hstart, hint⟩ := h pre post hfirst
    -- the number read is that of the first parameter of the name, which is the same
    have hnumber : atoi post' = atoi post := by
      have hqs : queryInt qs key default = atoi post := queryInt_eq_atoi hname hamp hfirst hstart
      have hqs' : queryInt qs' key default = atoi post' :=
        queryInt_eq_atoi hname hamp hfirst' hstart
      rw [← hqs, ← hqs']
      exact queryInt_congr hsame
    have hint' : -2 ^ 31 ≤ atoi post' ∧ atoi post' < 2 ^ 31 := by rwa [hnumber]
    rw [qsInt_firstAt hlen hfirst, qsInt_firstAt hlen hfirst', (toInt32_strtol_iff post).mpr hint,
      (toInt32_strtol_iff post').mpr hint', hnumber]
  · intro qs' h h' hsame
    rw [hreads qs' h', hreads qs h]
    exact queryInt_congr hsame

/-- A request for seven events. -/
theorem qsInt_byName_iff_seven : (bytes "n").length ≤ 62 ∧ 61 ∉ bytes "n" ∧ 38 ∉ bytes "n" ∧
    (qsInt (some (bytes "x=1&n=7")) (bytes "n") 50 = queryInt (bytes "x=1&n=7") (bytes "n") 50 ∧
        (∀ qs', OthersDiffer (bytes "n") (bytes "x=1&n=7") qs' →
          qsInt (some qs') (bytes "n") 50 = qsInt (some (bytes "x=1&n=7")) (bytes "n") 50) ↔
      ReadsByName (bytes "x=1&n=7") (bytes "n")) :=
  ⟨by decide, by decide, by decide,
    (qsInt_byName_iff (by decide) (by decide) (by decide) (bytes "x=1&n=7") 50).1⟩

/-- The parameter `xn` is read in place of `n`, and decides the result. -/
theorem qsInt_misreads : ¬ ∀ qs key default, key.length ≤ 62 → 61 ∉ key → 38 ∉ key →
    qsInt (some qs) key default = queryInt qs key default := by
  intro h
  have hread := h (bytes "xn=5&n=7") (bytes "n") 50 (by decide) (by decide) (by decide)
  have hfive : qsInt (some (bytes "xn=5&n=7")) (bytes "n") 50 = 5 := by decide
  have hseven : queryInt (bytes "xn=5&n=7") (bytes "n") 50 = 7 := by decide
  rw [hfive, hseven] at hread
  exact absurd hread (by decide)

end ContainerSim.Web
