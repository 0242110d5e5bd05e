import ContainerSim.Orch.JsonAccess
import ContainerSim.Orch.Lenient

/-!
# The JSON parser stays in bounds

Function by function: a run gives what the function of `Orch.Json` gives, and
the monitor accepts its log. `pos` bounds the rounds of `jp_skip_ws`, the fixed
arrays those of the other loops, and the arena the levels of the recursion, as
each level takes 544 bytes of it before it goes down.
-/

namespace ContainerSim.Orch

open Lib Logged

/-! ## Single steps -/

/-- What an access the monitor accepts does to it. -/
structure Gauge.Step (g : Gauge) (e : Access) (g' : Gauge) : Prop where
  within : e.Within g.len
  len : g'.len = g.len
  pos : g.pos ≤ g'.pos
  posSet : ∀ n, e.posSet = some n → n = g'.pos
  apos : g.apos ≤ g'.apos
  fits : g.apos ≤ jpArena → g'.apos ≤ jpArena

theorem Gauge.step_of_next {g g' : Gauge} {e : Access} (h : g.next e = some g') : g.Step e g' := by
  unfold Gauge.next at h
  split at h
  · rename_i hwithin
    cases e with
    | pos n =>
      simp only at h
      split at h
      · rename_i hle
        obtain rfl := Option.some.inj h
        exact ⟨hwithin, rfl, hle, fun _ hn => (Option.some.inj hn).symm, Nat.le_refl _, id⟩
      · cases h
    | apos n =>
      simp only at h
      split at h
      · rename_i hle
        obtain rfl := Option.some.inj h
        exact ⟨hwithin, rfl, Nat.le_refl _, nofun, hle, fun _ => hwithin⟩
      · cases h
    | _ =>
      obtain rfl := Option.some.inj h
      exact ⟨hwithin, rfl, Nat.le_refl _, nofun, Nat.le_refl _, id⟩
  · cases h

/-- The run from `p` gives `r`, and all it logs is accepted. -/
abbrev Gives {α : Type} (m : Run α) (p : JP) (r : JP × α) : Prop :=
  Runs Gauge.next JP.gauge m p r

theorem JP.advance_advance (p : JP) (m n : Nat) : (p.advance m).advance n = p.advance (m + n) := by
  unfold JP.advance
  rw [Nat.add_assoc]

theorem JP.rest_of_lt {p : JP} (h : p.pos < p.src.length) :
    p.rest = p.cur :: (p.advance 1).rest := by
  have hdrop : p.rest = p.src[p.pos] :: p.src.drop (p.pos + 1) := List.drop_eq_getElem_cons h
  have hcur : p.cur = p.src[p.pos] := by
    unfold JP.cur
    rw [hdrop]
    rfl
  rw [hcur]
  exact hdrop

theorem JP.rest_of_ge {p : JP} (h : ¬ p.pos < p.src.length) : p.rest = [] :=
  List.drop_eq_nil_of_le (Nat.le_of_not_lt h)

theorem JP.cur_of_ge {p : JP} (h : ¬ p.pos < p.src.length) : p.cur = 0 := by
  unfold JP.cur
  rw [JP.rest_of_ge h]
  rfl

theorem JP.lt_of_cur {p : JP} (h : p.cur ≠ 0) : p.pos < p.src.length := by
  by_contra hge
  exact h (JP.cur_of_ge hge)

section
variable {beyond : Nat → UInt8} {p : JP}

/-- A read at the position of `q`, which is on the same text. -/
theorem readSrc_gives {q : JP} (hsrc : q.src = p.src) (h : q.pos < q.src.length) :
    Gives (readSrc beyond q.pos) p (p, q.cur) := by
  have hbyte : p.src.getD q.pos (beyond q.pos) = q.cur := by
    unfold JP.cur JP.rest
    rw [← hsrc, List.drop_eq_getElem_cons h, List.getD_eq_getElem?_getD,
      List.getElem?_eq_getElem h]
    rfl
  have hbound : q.pos < p.src.length := by
    rw [← hsrc]
    exact h
  rw [← hbyte]
  exact Runs.step (if_pos hbound)

theorem readSrc_cur (h : p.pos < p.src.length) : Gives (readSrc beyond p.pos) p (p, p.cur) :=
  readSrc_gives rfl h

theorem setPos_gives {k : Nat} (h : p.pos + k ≤ p.src.length + 4) :
    Gives (setPos (p.pos + k)) p (p.advance k, ()) := by
  refine Runs.step ((if_pos h).trans ?_)
  exact if_pos (Nat.le_add_right _ _)

theorem failRun_gives (msg : JP → Bytes) : Gives (failRun msg) p (p.fail (msg p), ()) :=
  Runs.silent rfl

theorem jpAllocRun_gives (sz : Nat) : Gives (jpAllocRun sz) p (jpAlloc sz p) := by
  refine Runs.of_state ?_
  unfold jpAlloc
  simp only
  split
  · exact Runs.bind (failRun_gives _) (Runs.pure _ _)
  · rename_i hroom
    refine Runs.step ((if_pos (Nat.le_of_not_lt hroom)).trans ?_)
    exact if_pos (Nat.le_add_right _ _)

/-! ## White space -/

/-- The rest of a line, without its newline. -/
def lineLength (s : Bytes) : Nat := (s.takeWhile (· ≠ 10)).length

theorem lineLength_cons {c : UInt8} (hc : c ≠ 10) (s : Bytes) :
    lineLength (c :: s) = lineLength s + 1 := by
  unfold lineLength
  rw [List.takeWhile_cons_of_pos (by simpa using hc)]
  rfl

theorem lineLength_newline (s : Bytes) : lineLength (10 :: s) = 0 := rfl

/-- Inside a comment, `jp_skip_ws` takes the line and then goes on behind it. -/
theorem wsLength_line (s : Bytes) :
    wsLength true s = lineLength s + wsLength false (s.drop (lineLength s)) := by
  induction s with
  | nil => rfl
  | cons c s ih =>
    by_cases hc : c = 10
    · subst hc
      rw [lineLength_newline, Nat.zero_add, List.drop_zero, wsLength, if_pos rfl, wsLength,
        if_pos (by decide)]
    · rw [lineLength_cons hc, List.drop_succ_cons, wsLength, if_neg hc, ih]
      omega

theorem skipCommentRun_gives {n : Nat} (h : p.src.length - p.pos < n) :
    Gives (skipCommentRun beyond n) p (p.advance (lineLength p.rest), ()) := by
  induction n generalizing p with
  | zero => cases h
  | succ n ih =>
    refine Runs.of_state ?_
    by_cases hlt : p.pos < p.src.length
    · rw [if_pos hlt]
      refine Runs.bind (readSrc_cur hlt) ?_
      rw [JP.rest_of_lt hlt]
      by_cases hc : p.cur = 10
      · rw [if_pos hc, hc, lineLength_newline]
        exact Runs.pure _ _
      · rw [if_neg hc, lineLength_cons hc, Nat.add_comm (lineLength _) 1, ← JP.advance_advance]
        refine Runs.bind (setPos_gives (by omega)) (ih ?_)
        show p.src.length - (p.pos + 1) < n
        omega
    · rw [if_neg hlt, JP.rest_of_ge hlt]
      exact Runs.pure _ _

theorem jpSkipWs_blank (hlt : p.pos < p.src.length) (hws : isWs p.cur = true) :
    jpSkipWs p = jpSkipWs (p.advance 1) := by
  rw [jpSkipWs, jpSkipWs, JP.rest_of_lt hlt, wsLength, if_pos hws, JP.advance_advance,
    Nat.add_comm]

/-- The inner loop takes a comment from its first slash on. -/
theorem jpSkipWs_comment (hlt : p.pos < p.src.length) (hc : p.cur = 47)
    (hnext : p.pos + 1 < p.src.length) (hd : (p.advance 1).cur = 47) :
    0 < lineLength p.rest ∧ jpSkipWs p = jpSkipWs (p.advance (lineLength p.rest)) := by
  have hrest := JP.rest_of_lt hlt
  have hrest₁ : (p.advance 1).rest = 47 :: ((p.advance 1).advance 1).rest := by
    rw [← hd]
    exact JP.rest_of_lt hnext
  have hline : lineLength p.rest = lineLength (p.advance 1).rest + 1 := by
    rw [hrest, hc]
    exact lineLength_cons (by decide) _
  have hlen : wsLength false p.rest =
      lineLength p.rest + wsLength false (p.rest.drop (lineLength p.rest)) := by
    have hcond : p.cur = 47 ∧ (p.advance 1).rest.head? = some 47 := ⟨hc, by rw [hrest₁]; rfl⟩
    have hws : ¬ isWs p.cur = true := by
      rw [hc]
      decide
    conv => lhs; rw [hrest, wsLength, if_neg hws, if_pos hcond, wsLength_line]
    rw [hline, hrest, List.drop_succ_cons]
    omega
  refine ⟨by omega, ?_⟩
  rw [jpSkipWs, jpSkipWs, hlen, JP.advance_advance, JP.rest_advance]

theorem jpSkipWs_token (hlt : p.pos < p.src.length) (hws : ¬ isWs p.cur = true)
    (hslash : p.cur = 47 → p.pos + 1 < p.src.length → (p.advance 1).cur ≠ 47) :
    jpSkipWs p = p := by
  have hcond : ¬ (p.cur = 47 ∧ (p.advance 1).rest.head? = some 47) := by
    rintro ⟨hc, hhead⟩
    -- a slash at the end of the text is no comment
    by_cases hnext : p.pos + 1 < p.src.length
    · rw [JP.rest_of_lt (p := p.advance 1) hnext] at hhead
      exact hslash hc hnext (Option.some.inj hhead)
    · rw [JP.rest_of_ge (p := p.advance 1) hnext] at hhead
      cases hhead
  rw [jpSkipWs, JP.rest_of_lt hlt, wsLength, if_neg hws, if_neg hcond]
  rfl

theorem skipWsRun_gives {n : Nat} (h : p.src.length - p.pos < n) :
    Gives (skipWsRun beyond n) p (jpSkipWs p, ()) := by
  induction n generalizing p with
  | zero => cases h
  | succ n ih =>
    refine Runs.of_state ?_
    by_cases hlt : p.pos < p.src.length
    · rw [if_pos hlt]
      refine Runs.bind (readSrc_cur hlt) ?_
      by_cases hws : isWs p.cur = true
      · rw [if_pos hws, jpSkipWs_blank hlt hws]
        refine Runs.bind (setPos_gives (by omega)) (ih ?_)
        show p.src.length - (p.pos + 1) < n
        omega
      rw [if_neg hws]
      by_cases hslash : p.cur = 47 ∧ p.pos + 1 < p.src.length
      · rw [if_pos hslash]
        obtain ⟨hc, hnext⟩ := hslash
        refine Runs.bind (readSrc_gives (q := p.advance 1) rfl hnext) ?_
        by_cases hd : (p.advance 1).cur = 47
        · obtain ⟨hline, hskip⟩ := jpSkipWs_comment hlt hc hnext hd
          rw [if_pos hd, hskip]
          refine Runs.bind (skipCommentRun_gives (p := p) (by omega)) (ih ?_)
          show p.src.length - (p.pos + lineLength p.rest) < n
          omega
        · rw [if_neg hd, jpSkipWs_token hlt hws fun _ _ => hd]
          exact Runs.pure _ _
      · rw [if_neg hslash, jpSkipWs_token hlt hws fun hc hnext => absurd ⟨hc, hnext⟩ hslash]
        exact Runs.pure _ _
    · rw [if_neg hlt, jpSkipWs, JP.rest_of_ge hlt]
      exact Runs.pure _ _

theorem jpSkipWsRun_gives : Gives (jpSkipWsRun beyond) p (jpSkipWs p, ()) :=
  Runs.of_state (skipWsRun_gives (by omega))

theorem jpPeekRun_gives : Gives (jpPeekRun beyond) p (jpPeek p) := by
  refine Runs.bind jpSkipWsRun_gives (Runs.of_state ?_)
  unfold jpPeek
  split
  · rename_i hlt
    exact readSrc_cur hlt
  · rename_i hge
    rw [JP.cur_of_ge hge]
    exact Runs.pure _ _

theorem jpConsumeRun_gives : Gives (jpConsumeRun beyond) p (jpConsume p) := by
  refine Runs.bind jpSkipWsRun_gives (Runs.of_state ?_)
  unfold jpConsume
  simp only
  split
  · rename_i hlt
    refine Runs.bind (readSrc_cur hlt) (Runs.bind (setPos_gives (by omega)) (Runs.pure _ _))
  · exact Runs.pure _ _

theorem jpPeek_jpPeek (p : JP) : jpPeek (jpPeek p).1 = jpPeek p := by
  have hskip : jpSkipWs (jpSkipWs p) = jpSkipWs p := (jpSkipWs_atToken p).skip
  show (jpSkipWs (jpSkipWs p), (jpSkipWs (jpSkipWs p)).cur) = (jpSkipWs p, (jpSkipWs p).cur)
  rw [hskip]

theorem jpOptionalRun_gives {c : UInt8} (hc : c ≠ 0) :
    Gives (jpOptionalRun beyond c) p (jpOptional c p, ()) := by
  refine Runs.bind jpPeekRun_gives ?_
  unfold jpOptional
  simp only
  split
  · rename_i hd
    -- the second `jp_skip_ws` finds nothing to skip
    have hlt : (jpSkipWs p).pos < (jpSkipWs p).src.length := JP.lt_of_cur (fun h => hc (hd ▸ h))
    have hconsume : jpConsume (jpPeek p).1 = ((jpPeek p).1.advance 1, c) := by
      unfold jpConsume
      rw [show jpSkipWs (jpPeek p).1 = jpSkipWs p from (jpSkipWs_atToken p).skip]
      simp only
      rw [if_pos hlt]
      exact congrArg _ hd
    have hrun : Gives (jpConsumeRun beyond) (jpPeek p).1 (jpConsume (jpPeek p).1) :=
      jpConsumeRun_gives
    rw [hconsume] at hrun
    exact Runs.bind hrun (Runs.pure _ _)
  · exact Runs.pure _ _

/-! ## Strings and numbers -/

theorem rawString_length_le (n : Nat) (s : Bytes) : (rawString n s).1.length ≤ n := by
  induction n generalizing s with
  | zero => exact Nat.zero_le _
  | succ n ih =>
    cases s with
    | nil => exact Nat.zero_le _
    | cons c s =>
      by_cases hquote : c = 34
      · rw [hquote, rawString_quote]
        exact Nat.zero_le _
      by_cases hescape : c = 92
      · subst hescape
        cases s with
        | nil => exact Nat.zero_le _
        | cons e s =>
          rw [rawString_esc]
          exact Nat.succ_le_succ (ih s)
      · rw [rawString_raw n hquote hescape]
        exact Nat.succ_le_succ (ih s)

theorem unescapeRun_gives (h : p.pos < p.src.length) :
    Gives (unescapeRun beyond p.pos) p (p.advance 1, unescape p.cur) := by
  refine Runs.bind (readSrc_cur h) (Runs.bind (setPos_gives (by omega)) ?_)
  unfold unescape
  simp only
  split
  · exact Runs.pure _ _
  · split
    · exact Runs.pure _ _
    · split
      · exact Runs.pure _ _
      · exact readSrc_gives (p := p.advance 1) rfl h

/-- Where the loop of `jp_raw_string` ends, and what `tmp` holds then. -/
def rawStringEnd (p : JP) (tmp : Bytes) : JP × Bytes :=
  (p.advance (rawString (510 - tmp.length) p.rest).2,
    tmp ++ (rawString (510 - tmp.length) p.rest).1)

section
variable {tmp : Bytes}

theorem rawStringEnd_stop (h : p.pos < p.src.length → p.cur = 34 ∨ 510 ≤ tmp.length) :
    rawStringEnd p tmp = (p, tmp) := by
  have hstop : rawString (510 - tmp.length) p.rest = ([], 0) := by
    by_cases hlt : p.pos < p.src.length
    · rcases h hlt with hquote | hfull
      · rw [JP.rest_of_lt hlt, hquote]
        exact rawString_quote _ _
      · rw [Nat.sub_eq_zero_of_le hfull]
        rfl
    · rw [JP.rest_of_ge hlt]
      cases 510 - tmp.length with
      | zero => rfl
      | succ m => rfl
  unfold rawStringEnd
  rw [hstop, List.append_nil]
  rfl

theorem rawStringEnd_char (hlt : p.pos < p.src.length) (hquote : p.cur ≠ 34)
    (hescape : p.cur ≠ 92) (hroom : tmp.length < 510) :
    rawStringEnd p tmp = rawStringEnd (p.advance 1) (tmp ++ [p.cur]) := by
  obtain ⟨m, hm⟩ : ∃ m, 510 - tmp.length = m + 1 := ⟨510 - tmp.length - 1, by omega⟩
  have hm' : 510 - (tmp ++ [p.cur]).length = m := by
    rw [List.length_append, List.length_singleton]
    omega
  unfold rawStringEnd
  rw [hm, hm', JP.rest_of_lt hlt, rawString_raw m hquote hescape, JP.advance_advance,
    List.append_assoc, Nat.add_comm 1]
  rfl

theorem rawStringEnd_escape (hlt : p.pos < p.src.length) (hescape : p.cur = 92)
    (hnext : p.pos + 1 < p.src.length) (hroom : tmp.length < 510) :
    rawStringEnd p tmp =
      rawStringEnd ((p.advance 1).advance 1) (tmp ++ [unescape (p.advance 1).cur]) := by
  obtain ⟨m, hm⟩ : ∃ m, 510 - tmp.length = m + 1 := ⟨510 - tmp.length - 1, by omega⟩
  have hm' : 510 - (tmp ++ [unescape (p.advance 1).cur]).length = m := by
    rw [List.length_append, List.length_singleton]
    omega
  unfold rawStringEnd
  rw [hm, hm', JP.rest_of_lt hlt, hescape, JP.rest_of_lt (p := p.advance 1) hnext, rawString_esc,
    JP.advance_advance _ 1 1, JP.advance_advance, List.append_assoc, Nat.add_comm (1 + 1)]
  rfl

/-- A backslash at the end of the text is passed over. -/
theorem rawStringEnd_cut (hlt : p.pos < p.src.length) (hescape : p.cur = 92)
    (hnext : ¬ p.pos + 1 < p.src.length) (hroom : tmp.length < 510) :
    rawStringEnd p tmp = (p.advance 1, tmp) := by
  obtain ⟨m, hm⟩ : ∃ m, 510 - tmp.length = m + 1 := ⟨510 - tmp.length - 1, by omega⟩
  have hend : rawString (m + 1) [92] = ([], 1) := rfl
  unfold rawStringEnd
  rw [hm, JP.rest_of_lt hlt, hescape, JP.rest_of_ge (p := p.advance 1) hnext, hend,
    List.append_nil]

/-- A round of the loop puts at most one character into `tmp`, and one of 511
rounds finds it full. -/
theorem rawStringRun_gives {n : Nat} (hroom : tmp.length ≤ 510) (hn : 511 ≤ n + tmp.length) :
    Gives (rawStringRun beyond n tmp) p (rawStringEnd p tmp) := by
  induction n generalizing p tmp with
  | zero => omega
  | succ n ih =>
    refine Runs.of_state ?_
    by_cases hlt : p.pos < p.src.length
    · rw [if_pos hlt]
      refine Runs.bind (readSrc_cur hlt) ?_
      by_cases hquote : p.cur = 34
      · rw [if_pos hquote, rawStringEnd_stop fun _ => .inl hquote]
        exact Runs.pure _ _
      rw [if_neg hquote]
      by_cases hfull : 510 ≤ tmp.length
      · rw [if_pos hfull, rawStringEnd_stop fun _ => .inr hfull]
        exact Runs.pure _ _
      rw [if_neg hfull]
      have hmore : tmp.length < 510 := Nat.lt_of_not_le hfull
      have hnext : ∀ (q : JP) (b : UInt8),
          Gives (rawStringRun beyond n (tmp ++ [b])) q (rawStringEnd q (tmp ++ [b])) := by
        intro q b
        have hlen : (tmp ++ [b]).length = tmp.length + 1 := by simp
        exact ih (by omega) (by omega)
      by_cases hescape : p.cur = 92
      · rw [if_pos hescape]
        refine Runs.bind (setPos_gives (by omega)) ?_
        -- a backslash at the very end ends the string
        by_cases hafter : p.pos + 1 < p.src.length
        · rw [if_pos hafter, rawStringEnd_escape hlt hescape hafter hmore]
          refine Runs.bind (unescapeRun_gives (p := p.advance 1) hafter) ?_
          exact Runs.bind (Runs.note (if_pos hroom)) (hnext _ _)
        · rw [if_neg hafter, rawStringEnd_cut hlt hescape hafter hmore]
          exact Runs.pure _ _
      · rw [if_neg hescape, rawStringEnd_char hlt hquote hescape hmore]
        refine Runs.bind (Runs.note (if_pos hroom)) ?_
        exact Runs.bind (setPos_gives (by omega)) (hnext _ _)
    · rw [if_neg hlt, rawStringEnd_stop fun h => absurd h hlt]
      exact Runs.pure _ _

end

theorem closeQuoteRun_gives :
    Gives (closeQuoteRun beyond) p (if p.cur = 34 then p.advance 1 else p, ()) := by
  refine Runs.of_state ?_
  by_cases hlt : p.pos < p.src.length
  · rw [if_pos hlt]
    refine Runs.bind (readSrc_cur hlt) ?_
    by_cases hc : p.cur = 34
    · rw [if_pos hc, if_pos hc]
      exact setPos_gives (by omega)
    · rw [if_neg hc, if_neg hc]
      exact Runs.pure _ _
  · have hc : p.cur ≠ 34 := by
      rw [JP.cur_of_ge hlt]
      decide
    rw [if_neg hlt, if_neg hc]
    exact Runs.pure _ _

theorem jpRawStringRun_gives : Gives (jpRawStringRun beyond) p (jpRawString p) := by
  refine Runs.bind jpConsumeRun_gives ?_
  unfold jpRawString
  simp only
  generalize jpConsume p = r
  split
  · exact Runs.bind (failRun_gives _) (Runs.pure _ _)
  · have htmp := rawString_length_le 510 r.1.rest
    -- the loop, the NUL at `tmp[ti]`, the closing quote and the copy
    refine Runs.bind (rawStringRun_gives (by decide) (by decide)) ?_
    refine Runs.bind (Runs.note (if_pos htmp)) (Runs.bind closeQuoteRun_gives ?_)
    exact Runs.bind (jpAllocRun_gives _) (Runs.pure _ _)

theorem jpParseStringRun_gives : Gives (jpParseStringRun beyond) p (jpParseString p) := by
  refine Runs.bind (jpAllocRun_gives _) ?_
  unfold jpParseString jpNode
  simp only
  split
  · exact Runs.pure _ _
  · exact Runs.bind jpRawStringRun_gives (Runs.pure _ _)

theorem numberRun_gives {n : Nat} {buf : Bytes} (hroom : buf.length ≤ 63)
    (hn : 64 ≤ n + buf.length) :
    Gives (numberRun beyond n buf) p
      (p.advance ((p.rest.takeWhile isNumChar).take (63 - buf.length)).length,
        buf ++ (p.rest.takeWhile isNumChar).take (63 - buf.length)) := by
  induction n generalizing p buf with
  | zero => omega
  | succ n ih =>
    have hdone : ∀ {t : Bytes}, t = [] → (p.advance t.length, buf ++ t) = (p, buf) := by
      rintro t rfl
      rw [List.append_nil]
      rfl
    refine Runs.of_state ?_
    by_cases hmore : p.pos < p.src.length ∧ buf.length < 63
    · rw [if_pos hmore]
      obtain ⟨hlt, hbuf⟩ := hmore
      refine Runs.bind (readSrc_cur hlt) ?_
      rw [JP.rest_of_lt hlt]
      by_cases hc : isNumChar p.cur = true
      · obtain ⟨m, hm⟩ : ∃ m, 63 - buf.length = m + 1 := ⟨63 - buf.length - 1, by omega⟩
        rw [if_pos hc, List.takeWhile_cons_of_pos hc, hm, List.take_succ_cons, List.length_cons]
        have hnote : Gives (note (.buf buf.length)) p (p, ()) :=
          Runs.note (if_pos (Nat.lt_succ_of_lt hbuf))
        refine Runs.bind hnote (Runs.bind (setPos_gives (by omega)) ?_)
        have hlen : (buf ++ [p.cur]).length = buf.length + 1 := by simp
        have hrun : Gives (numberRun beyond n (buf ++ [p.cur])) (p.advance 1) _ :=
          ih (by omega) (by omega)
        rw [hlen, show 63 - (buf.length + 1) = m by omega, List.append_assoc,
          JP.advance_advance, Nat.add_comm] at hrun
        exact hrun
      · rw [if_neg hc, List.takeWhile_cons_of_neg hc, hdone List.take_nil]
        exact Runs.pure _ _
    · -- the text ends or the 64 bytes are used up
      have hstop : (p.rest.takeWhile isNumChar).take (63 - buf.length) = [] := by
        by_cases hlt : p.pos < p.src.length
        · have hfull : 63 - buf.length = 0 := by
            have hge : ¬ buf.length < 63 := fun h => hmore ⟨hlt, h⟩
            omega
          rw [hfull, List.take_zero]
        · rw [JP.rest_of_ge hlt]
          exact List.take_nil
      rw [if_neg hmore, hdone hstop]
      exact Runs.pure _ _

theorem jpParseNumberRun_gives : Gives (jpParseNumberRun beyond) p (jpParseNumber p) := by
  refine Runs.bind jpSkipWsRun_gives ?_
  refine Runs.bind (numberRun_gives (by decide) (by decide)) ?_
  have hbuf : (((jpSkipWs p).rest.takeWhile isNumChar).take 63).length < 64 := by
    rw [List.length_take]
    omega
  refine Runs.bind (Runs.note (if_pos hbuf)) ?_
  exact Runs.bind (jpAllocRun_gives _) (Runs.pure _ _)

theorem jpParseWordRun_gives {len : Nat} {v : JNode} (h : p.pos + len ≤ p.src.length + 4) :
    Gives (jpParseWordRun len v) p (jpParseWord len v p) :=
  Runs.of_state (Runs.bind (setPos_gives h) (Runs.bind (jpAllocRun_gives _) (Runs.pure _ _)))

/-! ## Objects and arrays -/

end

/-- The arena is filled up to `a` at least, and not beyond its end. -/
structure Filled (a : Nat) (p : JP) : Prop where
  least : a ≤ p.apos
  fits : p.apos ≤ jpArena

/-- No run gives arena back or takes more than there is. -/
theorem Gives.filled {α : Type} {m : Run α} {p : JP} {r : JP × α} (h : Gives m p r) {a : Nat}
    (hp : Filled a p) : Filled a r.1 := by
  have hstep : ∀ (g : Gauge) (e : Access) (g' : Gauge), (a ≤ g.apos ∧ g.apos ≤ jpArena) →
      g.next e = some g' → True ∧ (a ≤ g'.apos ∧ g'.apos ≤ jpArena) := by
    rintro g e g' ⟨hleast, hfits⟩ hnext
    have hdone := Gauge.step_of_next hnext
    exact ⟨trivial, Nat.le_trans hleast hdone.apos, hdone.fits hfits⟩
  obtain ⟨-, hleast, hfits⟩ :=
    forall_of_accepted (P := fun _ => True) hstep ⟨hp.least, hp.fits⟩ h.accepted
  exact ⟨hleast, hfits⟩

section
variable {beyond : Nat → UInt8} {p : JP} {a : Nat}

theorem jpEntriesRun_gives {α : Type} {entryRun : Nat → Run (Option α)}
    {entry : JP → JP × Option α} {close : UInt8}
    (hentry : ∀ cnt < 64, ∀ q, Filled a q → Gives (entryRun cnt) q (entry q))
    {n : Nat} {acc : List α} (hroom : acc.length ≤ 64) (hn : 65 ≤ n + acc.length)
    (hp : Filled a p) :
    Gives (jpEntriesRun beyond entryRun close n acc) p
      (jpEntries entry close (64 - acc.length) p acc) := by
  induction n generalizing p acc with
  | zero => omega
  | succ n ih =>
    have hpeek : Gives (jpPeekRun beyond) p (jpPeek p) := jpPeekRun_gives
    -- the three tests of the loop all look at the same byte
    have hpeek₁ : Gives (jpPeekRun beyond) (jpPeek p).1 (jpPeek p) := by
      have hagain : Gives (jpPeekRun beyond) (jpPeek p).1 (jpPeek (jpPeek p).1) := jpPeekRun_gives
      rwa [jpPeek_jpPeek] at hagain
    have hfilled : Filled a (jpPeek p).1 := hpeek.filled hp
    refine Runs.bind hpeek ?_
    by_cases hfull : 64 ≤ acc.length
    · -- 64 entries: the loop ends after the third test at the latest
      have hdone : jpEntries entry close (64 - acc.length) p acc = ((jpPeek p).1, some acc) := by
        rw [Nat.sub_eq_zero_of_le hfull]
        rfl
      rw [hdone]
      split
      · exact Runs.pure _ _
      · refine Runs.bind hpeek₁ ?_
        split
        · exact Runs.pure _ _
        · exact Runs.pure _ _
    · obtain ⟨m, hm⟩ : ∃ m, 64 - acc.length = m + 1 := ⟨64 - acc.length - 1, by omega⟩
      rw [hm]
      unfold jpEntries
      simp only
      by_cases hclose : (jpPeek p).2 = close
      · rw [if_pos hclose, if_pos (.inl hclose)]
        exact Runs.pure _ _
      · rw [if_neg hclose]
        refine Runs.bind hpeek₁ ?_
        by_cases hend : (jpPeek p).2 = 0
        · rw [if_pos hend, if_pos (.inr hend)]
          exact Runs.pure _ _
        · rw [if_neg hend, if_neg (not_or.mpr ⟨hclose, hend⟩), if_neg hfull]
          have hrun := hentry acc.length (by omega) (jpPeek p).1 hfilled
          have hafter := hrun.filled hfilled
          refine Runs.bind hrun ?_
          generalize entry (jpPeek p).1 = r at hafter ⊢
          obtain ⟨q, e⟩ := r
          cases e with
          | none => exact Runs.pure _ _
          | some e =>
            have hcomma : Gives (jpOptionalRun beyond 44) q (jpOptional 44 q, ()) :=
              jpOptionalRun_gives (by decide)
            refine Runs.bind hcomma ?_
            have hlen : (acc ++ [e]).length = acc.length + 1 := by simp
            have hnext : Gives (jpEntriesRun beyond entryRun close n (acc ++ [e]))
                (jpOptional 44 q) _ := ih (by omega) (by omega) (hcomma.filled hafter)
            rw [hlen, show 64 - (acc.length + 1) = m by omega] at hnext
            exact hnext

variable {valueRun : Run (Option JNode)} {value : JP → JP × Option JNode}

theorem jpMemberRun_gives (hvalue : ∀ q, Filled a q → Gives valueRun q (value q)) {cnt : Nat}
    (hcnt : cnt < 64) (hp : Filled a p) :
    Gives (jpMemberRun beyond valueRun cnt) p (jpMember value p) := by
  have hkey : Gives (jpRawStringRun beyond) p (jpRawString p) := jpRawStringRun_gives
  have hafter := hkey.filled hp
  refine Runs.bind hkey ?_
  unfold jpMember
  generalize jpRawString p = r at hafter ⊢
  obtain ⟨q, key⟩ := r
  cases key with
  | none => exact Runs.pure _ _
  | some key =>
    have hcolon : Gives (jpConsumeRun beyond) q (jpConsume q) := jpConsumeRun_gives
    refine Runs.bind hcolon ?_
    simp only
    split
    · exact Runs.pure _ _
    · refine Runs.bind (hvalue _ (hcolon.filled hafter)) ?_
      generalize value (jpConsume q).1 = v
      obtain ⟨q₁, val⟩ := v
      cases val with
      | none => exact Runs.pure _ _
      | some val =>
        exact Runs.bind (Runs.note (if_pos hcnt))
          (Runs.bind (Runs.note (if_pos hcnt)) (Runs.pure _ _))

theorem jpItemRun_gives (hvalue : ∀ q, Filled a q → Gives valueRun q (value q)) {cnt : Nat}
    (hcnt : cnt < 64) (hp : Filled a p) : Gives (jpItemRun valueRun cnt) p (value p) := by
  refine Runs.bind (hvalue p hp) ?_
  generalize value p = v
  obtain ⟨q, val⟩ := v
  cases val with
  | none => exact Runs.pure _ _
  | some val => exact Runs.bind (Runs.note (if_pos hcnt)) (Runs.pure _ _)

/-- The values of an object are parsed with 544 bytes more in the arena. -/
theorem jpParseObjectRun_gives (hvalue : ∀ q, Filled (a + 544) q → Gives valueRun q (value q))
    (hp : Filled a p) : Gives (jpParseObjectRun beyond valueRun) p (jpParseObject value p) := by
  have hopen : Gives (jpConsumeRun beyond) p (jpConsume p) := jpConsumeRun_gives
  have hfilled := hopen.filled hp
  refine Runs.bind hopen ?_
  unfold jpParseObject
  simp only
  generalize jpConsume p = r at hfilled ⊢
  split
  · exact Runs.bind (failRun_gives _) (Runs.pure _ _)
  refine Runs.bind (jpAllocRun_gives _) ?_
  have hnode := (jpAlloc_apos jnodeSize r.1).2
  rw [← jpNode] at hnode ⊢
  generalize jpNode r.1 = k at hnode ⊢
  split
  · exact Runs.pure _ _
  rename_i hok
  refine Runs.bind (jpAllocRun_gives _) (Runs.bind (jpAllocRun_gives _) ?_)
  have hkeys := (jpAlloc_apos (jpMaxObj * ptrSize) k.1).2
  generalize jpAlloc (jpMaxObj * ptrSize) k.1 = ks at hkeys ⊢
  have hvals := (jpAlloc_apos (jpMaxObj * ptrSize) ks.1).2
  generalize jpAlloc (jpMaxObj * ptrSize) ks.1 = vs at hvals ⊢
  split
  · exact Runs.pure _ _
  rename_i hroom
  simp only [Bool.or_eq_true, Bool.not_eq_true', not_or, Bool.not_eq_false] at hok hroom
  -- the node and the two arrays take 32 + 512 + 512 bytes
  obtain ⟨hn, -⟩ := hnode hok
  obtain ⟨hk, -⟩ := hkeys hroom.1
  obtain ⟨hv, hfits⟩ := hvals hroom.2
  have hnsize : (jnodeSize + 7) / 8 * 8 = 32 := by decide
  have hksize : (jpMaxObj * ptrSize + 7) / 8 * 8 = 512 := by decide
  rw [hnsize] at hn
  rw [hksize] at hk hv
  have hleast := hfilled.least
  have hmembers : Gives (jpEntriesRun beyond (jpMemberRun beyond valueRun) 125 65 []) vs.1
      (jpEntries (jpMember value) 125 jpMaxObj vs.1 []) :=
    jpEntriesRun_gives (fun _ hcnt _ hq => jpMemberRun_gives hvalue hcnt hq) (Nat.zero_le _)
      (Nat.le_refl _) ⟨by omega, hfits⟩
  refine Runs.bind hmembers ?_
  generalize jpEntries (jpMember value) 125 jpMaxObj vs.1 [] = l
  obtain ⟨q, kv⟩ := l
  cases kv with
  | none => exact Runs.pure _ _
  | some kv => exact Runs.bind (jpOptionalRun_gives (by decide)) (Runs.pure _ _)

theorem jpParseArrayRun_gives (hvalue : ∀ q, Filled (a + 544) q → Gives valueRun q (value q))
    (hp : Filled a p) : Gives (jpParseArrayRun beyond valueRun) p (jpParseArray value p) := by
  have hopen : Gives (jpConsumeRun beyond) p (jpConsume p) := jpConsumeRun_gives
  have hfilled := hopen.filled hp
  refine Runs.bind hopen ?_
  unfold jpParseArray
  simp only
  generalize jpConsume p = r at hfilled ⊢
  split
  · exact Runs.bind (failRun_gives _) (Runs.pure _ _)
  refine Runs.bind (jpAllocRun_gives _) ?_
  have hnode := (jpAlloc_apos jnodeSize r.1).2
  rw [← jpNode] at hnode ⊢
  generalize jpNode r.1 = k at hnode ⊢
  split
  · exact Runs.pure _ _
  rename_i hok
  refine Runs.bind (jpAllocRun_gives _) ?_
  have hitems := (jpAlloc_apos (jpMaxArr * ptrSize) k.1).2
  generalize jpAlloc (jpMaxArr * ptrSize) k.1 = is at hitems ⊢
  split
  · exact Runs.pure _ _
  rename_i hroom
  simp only [Bool.not_eq_true', Bool.not_eq_false] at hok hroom
  -- the node and the array take 32 + 512 bytes
  obtain ⟨hn, -⟩ := hnode hok
  obtain ⟨hk, hfits⟩ := hitems hroom
  have hnsize : (jnodeSize + 7) / 8 * 8 = 32 := by decide
  have hksize : (jpMaxArr * ptrSize + 7) / 8 * 8 = 512 := by decide
  rw [hnsize] at hn
  rw [hksize] at hk
  have hleast := hfilled.least
  have helems : Gives (jpEntriesRun beyond (jpItemRun valueRun) 93 65 []) is.1
      (jpEntries value 93 jpMaxArr is.1 []) :=
    jpEntriesRun_gives (fun _ hcnt _ hq => jpItemRun_gives hvalue hcnt hq) (Nat.zero_le _)
      (Nat.le_refl _) ⟨by omega, hfits⟩
  refine Runs.bind helems ?_
  generalize jpEntries value 93 jpMaxArr is.1 [] = l
  obtain ⟨q, v⟩ := l
  cases v with
  | none => exact Runs.pure _ _
  | some v => exact Runs.bind (jpOptionalRun_gives (by decide)) (Runs.pure _ _)

/-! ## Values -/

/-- Inside `level` other calls `544 * level` bytes of the arena are taken, so
`jpMaxDepth` levels are never used up. -/
theorem jpParseValueRun_gives {depth level : Nat} (hp : Filled (544 * level) p)
    (hdepth : jpMaxDepth ≤ depth + level) :
    Gives (jpParseValueRun beyond depth level) p (jpParseValue depth p) := by
  have hmax : jpMaxDepth = 242 := by decide
  have harena : jpArena = 131072 := by decide
  induction depth generalizing level p with
  | zero =>
    -- `jpMaxDepth` levels would have taken more than the arena
    have hleast := hp.least
    have hfits := hp.fits
    omega
  | succ depth ih =>
    have hcall : level < jpMaxDepth := by
      have hleast := hp.least
      have hfits := hp.fits
      omega
    refine Runs.bind (Runs.note (if_pos hcall)) ?_
    have hpeek : Gives (jpPeekRun beyond) p (jpPeek p) := jpPeekRun_gives
    have hfilled := hpeek.filled hp
    refine Runs.bind hpeek ?_
    have hvalue : ∀ q, Filled (544 * level + 544) q →
        Gives (jpParseValueRun beyond depth (level + 1)) q (jpParseValue depth q) :=
      fun q hq => ih ⟨by have := hq.least; omega, hq.fits⟩ (by omega)
    -- a keyword is not at the end of the text
    have hword : ∀ {c : UInt8} {len : Nat} {v : JNode}, (jpPeek p).2 = c → c ≠ 0 → len ≤ 5 →
        Gives (jpParseWordRun len v) (jpPeek p).1 (jpParseWord len v (jpPeek p).1) := by
      rintro c len v rfl hc hlen
      have hlt := JP.lt_of_cur (p := (jpPeek p).1) hc
      exact jpParseWordRun_gives (by omega)
    unfold jpParseValue
    simp only
    split
    · exact jpParseObjectRun_gives hvalue hfilled
    split
    · exact jpParseArrayRun_gives hvalue hfilled
    split
    · exact jpParseStringRun_gives
    split
    · rename_i hc
      exact hword hc (by decide) (by decide)
    split
    · rename_i hc
      exact hword hc (by decide) (by decide)
    split
    · rename_i hc
      exact hword hc (by decide) (by decide)
    split
    · exact jpParseNumberRun_gives
    · exact Runs.bind (failRun_gives _) (Runs.pure _ _)

end

/-- On every text, whatever lies in memory behind it and however many levels
more than `jpMaxDepth` the recursion is allowed, the parser comes to its end
with the result of `jpParseValue`; every access on the way is in bounds and
`pos` never goes down. -/
theorem jpParseValue_in_bounds (text : Bytes) (beyond : Nat → UInt8) (more : Nat) :
    let run := jpParseValueRun beyond (jpMaxDepth + more) 0 (JP.init text)
    run.1 = jpParseValue jpMaxDepth (JP.init text) ∧
      (∀ e ∈ run.2, e.Within text.length) ∧
      (run.2.filterMap Access.posSet).Pairwise (· ≤ ·) := by
  have hstart : Filled (544 * 0) (JP.init text) := ⟨Nat.zero_le _, Nat.zero_le _⟩
  have hrun : Gives (jpParseValueRun beyond (jpMaxDepth + more) 0) (JP.init text)
      (jpParseValue (jpMaxDepth + more) (JP.init text)) :=
    jpParseValueRun_gives hstart (Nat.le_add_right _ _)
  refine ⟨?_, ?_, ?_⟩
  · rw [hrun.result]
    exact jpParseValue_depth (Nat.le_add_right _ _) _
  · have hstep : ∀ (g : Gauge) (e : Access) (g' : Gauge), g.len = text.length →
        g.next e = some g' → e.Within text.length ∧ g'.len = text.length := by
      rintro g e g' hlen hnext
      have hdone := Gauge.step_of_next hnext
      exact ⟨hlen ▸ hdone.within, hdone.len.trans hlen⟩
    exact (forall_of_accepted hstep rfl hrun.accepted).1
  · have hstep : ∀ (g : Gauge) (e : Access) (g' : Gauge), g.next e = some g' →
        g.pos ≤ g'.pos ∧ ∀ n, e.posSet = some n → n = g'.pos :=
      fun _ _ _ hnext => ⟨(Gauge.step_of_next hnext).pos, (Gauge.step_of_next hnext).posSet⟩
    exact (pairwise_of_accepted hstep hrun.accepted).1

end ContainerSim.Orch
