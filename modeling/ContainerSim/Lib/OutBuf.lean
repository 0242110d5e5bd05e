import ContainerSim.Lib.Bytes
import Mathlib.Data.List.Basic
import Mathlib.Data.Nat.Find

/-!
# Texts written into a bounded buffer

`written += snprintf(buf + written, buflen - written, ...)`, and the loop that
writes a list of texts with commas between them for as long as more than a
reserve is left, then closes the list if there is room. `snprintf` counts the
bytes of a text whether or not they fit, so the count stays inside the buffer
exactly if every text that is begun fits (`Fits`): then the buffer holds whole
texts and is closed, and otherwise it is not (`writeList_iff`).
-/

namespace ContainerSim.Lib

/-- A buffer and the count of the bytes written. -/
structure OutBuf where
  mem : Bytes
  written : Nat

namespace OutBuf

/-- Bytes stored at a position. -/
def store (mem : Bytes) (pos : Nat) (bs : Bytes) : Bytes :=
  mem.take pos ++ (bs ++ mem.drop (pos + bs.length))

/-- `written += snprintf(buf + written, buflen - written, ...)`: what fits is
stored, with a NUL behind it, and the whole length is counted. -/
def snprintf (o : OutBuf) (text : Bytes) : OutBuf :=
  { mem :=
      if o.written < o.mem.length then
        store o.mem o.written (text.take (o.mem.length - o.written - 1) ++ [0])
      else o.mem
    written := o.written + text.length }

section
variable {α : Type*}

/-- The loop: `none` is `continue`, and a comma stands before all texts but the first. -/
def fill (reserve : Nat) (entry : α → Option Bytes) : Bool → List α → OutBuf → OutBuf
  | _, [], o => o
  | first, a :: as, o =>
    if o.written + reserve < o.mem.length then
      match entry a with
      | none => fill reserve entry first as o
      | some text => fill reserve entry false as (o.snprintf (if first then text else 44 :: text))
    else o

/-- `if (written < buflen - |tail|)` the list is closed. -/
def close (tail : Bytes) (o : OutBuf) : OutBuf :=
  if o.written + tail.length < o.mem.length then
    { mem := store o.mem o.written (tail ++ [0]), written := o.written + tail.length }
  else o

/-- The opening text, the list and the closing text. -/
def writeList (opening tail : Bytes) (reserve : Nat) (entry : α → Option Bytes) (as : List α)
    (buf : Bytes) : OutBuf :=
  (fill reserve entry true as (snprintf { mem := buf, written := 0 } opening)).close tail

end

/-- The opening text and the texts of the list. -/
def body (opening : Bytes) (ts : List Bytes) : Bytes := opening ++ [44].intercalate ts

/-- The buffer holds the text with a NUL behind it, and its length is the count. -/
def Holds (o : OutBuf) (len : Nat) (t : Bytes) : Prop :=
  o.mem.length = len ∧ o.written = t.length ∧ ∃ rest, o.mem = t ++ 0 :: rest

/-- The count has left the buffer. -/
def Overrun (o : OutBuf) (len : Nat) : Prop := o.mem.length = len ∧ len ≤ o.written

theorem Holds.lt {o : OutBuf} {len : Nat} {t : Bytes} (h : Holds o len t) : o.written < len := by
  obtain ⟨rfl, hwritten, rest, hmem⟩ := h
  rw [hwritten, hmem, List.length_append, List.length_cons]
  omega

theorem Holds.take {o : OutBuf} {len : Nat} {t : Bytes} (h : Holds o len t) :
    o.mem.take o.written = t := by
  obtain ⟨-, hwritten, rest, hmem⟩ := h
  rw [hwritten, hmem, List.take_left]

theorem Holds.nul {o : OutBuf} {len : Nat} {t : Bytes} (h : Holds o len t) :
    o.mem[o.written]? = some 0 := by
  obtain ⟨-, hwritten, rest, hmem⟩ := h
  rw [hwritten, hmem, List.getElem?_append_right (Nat.le_refl _), Nat.sub_self]
  rfl

theorem store_append (t m bs : Bytes) :
    store (t ++ m) t.length bs = t ++ (bs ++ m.drop bs.length) := by
  rw [store, List.take_left, List.drop_append, List.drop_eq_nil_of_le (by omega), List.nil_append,
    Nat.add_sub_cancel_left]

theorem snprintf_fits {len : Nat} {t m text : Bytes} (hlen : (t ++ m).length = len)
    (hfits : t.length + text.length < len) :
    Holds (snprintf { mem := t ++ m, written := t.length } text) len (t ++ text) := by
  have hm : m.length + t.length = len := by rw [← hlen, List.length_append]; omega
  have htake : text.take ((t ++ m).length - t.length - 1) = text := by
    rw [List.take_of_length_le]
    omega
  have hroom : (text ++ [(0 : UInt8)]).length ≤ m.length := by
    rw [List.length_append, List.length_singleton]
    omega
  have hstore : (snprintf { mem := t ++ m, written := t.length } text).mem =
      t ++ (text ++ [0] ++ m.drop (text ++ [(0 : UInt8)]).length) := by
    show (if t.length < (t ++ m).length then _ else _) = _
    rw [if_pos (by omega)]
    show store (t ++ m) t.length (text.take ((t ++ m).length - t.length - 1) ++ [0]) = _
    rw [htake, store_append]
  refine ⟨?_, ?_, m.drop (text ++ [(0 : UInt8)]).length, ?_⟩
  · rw [hstore]
    simp only [List.length_append, List.length_drop, List.length_singleton] at hroom ⊢
    omega
  · exact (List.length_append).symm
  · rw [hstore]
    simp

theorem snprintf_overruns {len : Nat} {t m text : Bytes} (hlen : (t ++ m).length = len)
    (hcut : len ≤ t.length + text.length) :
    Overrun (snprintf { mem := t ++ m, written := t.length } text) len := by
  refine ⟨?_, hcut⟩
  show (if t.length < (t ++ m).length then _ else _ : Bytes).length = len
  split
  · rename_i hlt
    rw [store_append]
    simp only [List.length_append, List.length_take, List.length_drop, List.length_singleton] at *
    omega
  · exact hlen

theorem Holds.snprintf {o : OutBuf} {len : Nat} {t text : Bytes} (h : Holds o len t)
    (hfits : t.length + text.length < len) : Holds (o.snprintf text) len (t ++ text) := by
  obtain ⟨mem, written⟩ := o
  obtain ⟨hlen, rfl, rest, rfl⟩ := h
  exact snprintf_fits hlen hfits

theorem Holds.overruns {o : OutBuf} {len : Nat} {t text : Bytes} (h : Holds o len t)
    (hcut : len ≤ t.length + text.length) : Overrun (o.snprintf text) len := by
  obtain ⟨mem, written⟩ := o
  obtain ⟨hlen, rfl, rest, rfl⟩ := h
  exact snprintf_overruns hlen hcut

theorem Holds.close {o : OutBuf} {len : Nat} {t tail : Bytes} (h : Holds o len t)
    (hfits : t.length + tail.length < len) : Holds (o.close tail) len (t ++ tail) := by
  have hsnprintf := h.snprintf hfits
  obtain ⟨mem, written⟩ := o
  obtain ⟨hlen, rfl, rest, rfl⟩ := h
  simp only at hlen
  have htake : tail.take ((t ++ 0 :: rest).length - t.length - 1) = tail := by
    rw [List.take_of_length_le]
    omega
  have hsame : OutBuf.close tail { mem := t ++ 0 :: rest, written := t.length } =
      OutBuf.snprintf { mem := t ++ 0 :: rest, written := t.length } tail := by
    have hroom : t.length < (t ++ 0 :: rest).length := by omega
    rw [OutBuf.close, OutBuf.snprintf, if_pos (by rw [hlen]; exact hfits), if_pos hroom, htake]
  rw [hsame]
  exact hsnprintf

theorem close_of_full {o : OutBuf} {tail : Bytes} (h : o.mem.length ≤ o.written + tail.length) :
    o.close tail = o := if_neg (Nat.not_lt.mpr h)

/-! ## The loop -/

section
variable {α : Type*} {opening tail : Bytes} {reserve len : Nat}

theorem body_nil (opening : Bytes) : body opening [] = opening := List.append_nil opening

/-- The next text comes behind a comma, if it is not the first. -/
theorem body_snoc (opening : Bytes) (ts : List Bytes) (t : Bytes) :
    body opening (ts ++ [t]) = body opening ts ++ (if ts.isEmpty then t else 44 :: t) := by
  unfold body
  cases ts with
  | nil => simp
  | cons u ts =>
    rw [List.append_assoc]
    refine congrArg (opening ++ ·) ?_
    show [44].intercalate (u :: ts ++ [t]) = [44].intercalate (u :: ts) ++ 44 :: t
    induction ts generalizing u with
    | nil => simp
    | cons v ts ih =>
      rw [List.cons_append, List.cons_append, List.intercalate_cons_cons,
        List.intercalate_cons_cons, show v :: (ts ++ [t]) = v :: ts ++ [t] from rfl, ih v]
      exact (List.append_assoc _ _ _).symm

theorem length_body_le (opening : Bytes) (ts us : List Bytes) :
    (body opening ts).length ≤ (body opening (ts ++ us)).length := by
  induction us generalizing ts with
  | nil => rw [List.append_nil]
  | cons u us ih =>
    rw [List.append_cons]
    refine Nat.le_trans ?_ (ih (ts ++ [u]))
    rw [body_snoc, List.length_append]
    omega

theorem length_body_replicate (opening t : Bytes) (k : Nat) :
    (body opening (List.replicate (k + 1) t)).length + 1 = opening.length + (k + 1) * (t.length + 1) := by
  induction k with
  | zero =>
    rw [List.replicate_one, body, List.intercalate_singleton, List.length_append]
    omega
  | succ k ih =>
    rw [List.replicate_succ', body_snoc, List.length_append, if_neg (by simp [List.replicate_succ]),
      List.length_cons, Nat.succ_mul (k + 1)]
    omega

/-- Entries that are left out only take a turn of the loop. -/
theorem fill_filterMap (reserve : Nat) (entry : α → Option Bytes) (first : Bool) (as : List α)
    (o : OutBuf) : fill reserve entry first as o =
      fill reserve some first (as.filterMap entry) o := by
  induction as generalizing first o with
  | nil => rfl
  | cons a as ih =>
    rw [fill, List.filterMap_cons]
    cases hentry : entry a with
    | none =>
      simp only
      rw [ih]
      split
      · rfl
      · rename_i hfull
        cases as.filterMap entry with
        | nil => rfl
        | cons t ts => rw [fill, if_neg hfull]
    | some t =>
      simp only
      rw [fill, ih]

/-- A text is begun only while more than the reserve is left. -/
def Begun (opening : Bytes) (reserve len : Nat) (ts : List Bytes) : Prop :=
  ∀ pre t post, ts = pre ++ t :: post → (body opening pre).length + reserve < len

/-- Every text that is begun leaves room for the tail. -/
def Fits (opening tail : Bytes) (reserve len : Nat) (ts : List Bytes) : Prop :=
  opening.length + tail.length < len ∧
    ∀ pre t post, ts = pre ++ t :: post → (body opening pre).length + reserve < len →
      (body opening (pre ++ [t])).length + tail.length < len

/-- Texts that the reserve takes with a comma and the tail fit. -/
theorem fits_of_le {ts : List Bytes} (hopening : opening.length + tail.length < len)
    (h : ∀ t ∈ ts, 1 + t.length + tail.length ≤ reserve) : Fits opening tail reserve len ts := by
  refine ⟨hopening, fun pre t post hts hguard => ?_⟩
  have ht := h t (hts ▸ List.mem_append_right _ List.mem_cons_self)
  rw [body_snoc, List.length_append]
  split
  · omega
  · rw [List.length_cons]
    omega

/-- Equal texts do not fit if one of them begins in time and ends too late. -/
theorem not_fits_replicate {t : Bytes} {k m : Nat}
    (hbegun : opening.length + (k + 1) * (t.length + 1) + reserve ≤ len)
    (hlate : len < opening.length + (k + 1 + 1) * (t.length + 1) + tail.length) :
    ¬ Fits opening tail reserve len (List.replicate (k + 1 + (m + 1)) t) := by
  rintro ⟨-, hfits⟩
  have hbefore := length_body_replicate opening t k
  have hafter := length_body_replicate opening t (k + 1)
  have hroom := hfits (List.replicate (k + 1) t) t (List.replicate m t)
    (by rw [← List.replicate_succ, List.replicate_append_replicate]) (by omega)
  rw [← List.replicate_succ'] at hroom
  omega

/-- Every text is begun, and they leave room for the tail. -/
structure Whole (opening tail : Bytes) (reserve len : Nat) (ts : List Bytes) : Prop where
  begun : Begun opening reserve len ts
  room : (body opening ts).length + tail.length < len

theorem Whole.fits {ts : List Bytes} (h : Whole opening tail reserve len ts) :
    Fits opening tail reserve len ts := by
  have hroom := h.room
  refine ⟨?_, fun pre t post hts _ => ?_⟩
  · have hle := length_body_le opening [] ts
    rw [body_nil, List.nil_append] at hle
    omega
  · have hle := length_body_le opening (pre ++ [t]) post
    rw [← List.append_cons, ← hts] at hle
    omega

theorem whole_singleton {t : Bytes} (hbegun : opening.length + reserve < len)
    (hroom : opening.length + t.length + tail.length < len) : Whole opening tail reserve len [t] where
  begun := by
    intro pre u post heq
    cases pre with
    | nil => rwa [body_nil]
    | cons a pre => simp at heq
  room := by rwa [body, List.intercalate_singleton, List.length_append]

/-- If the loop may begin every text it writes them all. -/
theorem Begun.take_eq {ts : List Bytes} (h : Begun opening reserve len ts) {k : Nat}
    (hend : ts.take k = ts ∨ len ≤ (body opening (ts.take k)).length + reserve) :
    ts.take k = ts := by
  rcases hend with hall | hfull
  · exact hall
  · cases hrest : ts.drop k with
    | nil =>
      have hsplit := List.take_append_drop k ts
      rwa [hrest, List.append_nil] at hsplit
    | cons t post =>
      have hguard := h (ts.take k) t post (by rw [← hrest, List.take_append_drop])
      omega

/-- The loop begins the first `k` texts and no other. -/
structure Begins (opening : Bytes) (reserve len : Nat) (ts : List Bytes) (k : Nat) : Prop where
  begun : Begun opening reserve len (ts.take k)
  stop : ts.take k = ts ∨ len ≤ (body opening (ts.take k)).length + reserve

theorem Begins.unique {ts : List Bytes} {j k : Nat} (hj : Begins opening reserve len ts j)
    (hk : Begins opening reserve len ts k) : ts.take j = ts.take k := by
  have hle : ∀ {j k : Nat}, j ≤ k → Begins opening reserve len ts j →
      Begins opening reserve len ts k → ts.take j = ts.take k := by
    intro j k hjk hj hk
    have htake : (ts.take k).take j = ts.take j := by rw [List.take_take, Nat.min_eq_left hjk]
    rw [← htake]
    refine hk.begun.take_eq ?_
    rw [htake]
    rcases hj.stop with hall | hfull
    · have hlen := congrArg List.length hall
      rw [List.length_take] at hlen
      rw [hall, List.take_of_length_le (by omega)]
      exact .inl rfl
    · exact .inr hfull
  rcases Nat.le_total j k with hjk | hkj
  · exact hle hjk hj hk
  · exact (hle hkj hk hj).symm

theorem exists_begins (opening : Bytes) (reserve len : Nat) (ts : List Bytes) :
    ∃ k, Begins opening reserve len ts k := by
  have hend : ∃ k, ts.length ≤ k ∨ len ≤ (body opening (ts.take k)).length + reserve :=
    ⟨ts.length, .inl (Nat.le_refl _)⟩
  -- the first place where the loop cannot go on
  refine ⟨Nat.find hend, fun pre t post heq => ?_, ?_⟩
  · have hlen := congrArg List.length heq
    rw [List.length_take, List.length_append, List.length_cons] at hlen
    have hmin := Nat.find_min hend (m := pre.length) (by omega)
    have hpre : ts.take pre.length = pre := by
      have htake := congrArg (List.take pre.length) heq
      rwa [List.take_take, Nat.min_eq_left (by omega), List.take_left'] at htake
      rfl
    rw [hpre] at hmin
    omega
  · rcases Nat.find_spec hend with hall | hfull
    · exact .inl (List.take_of_length_le hall)
    · exact .inr hfull

/-- How the loop ends: with whole texts, of which the last may have used up the
room of the tail, or with one that does not fit. -/
theorem fill_spec {printed ts : List Bytes} {o : OutBuf}
    (h : Holds o len (body opening printed)) (hbegun : Begun opening reserve len printed) :
    ∃ k, Begun opening reserve len (printed ++ ts.take k) ∧
      ((Holds (fill reserve some printed.isEmpty ts o) len (body opening (printed ++ ts.take k)) ∧
          (ts.take k = ts ∨ len ≤ (body opening (printed ++ ts.take k)).length + reserve)) ∨
        Overrun (fill reserve some printed.isEmpty ts o) len ∧
          len ≤ (body opening (printed ++ ts.take k)).length) := by
  induction ts generalizing printed o with
  | nil => exact ⟨0, by simpa using hbegun, .inl ⟨by simpa [fill] using h, .inl rfl⟩⟩
  | cons t ts ih =>
    have hlen : o.mem.length = len := h.1
    have hwritten : o.written = (body opening printed).length := h.2.1
    rw [fill, hlen, hwritten]
    by_cases hguard : (body opening printed).length + reserve < len
    · rw [if_pos hguard]
      simp only
      have hnext : Begun opening reserve len (printed ++ [t]) := by
        intro pre u post heq
        rcases List.eq_nil_or_concat post with rfl | ⟨post', b, rfl⟩
        · obtain ⟨rfl, -⟩ := List.append_inj' heq rfl
          exact hguard
        · have hcut : printed ++ [t] = (pre ++ u :: post') ++ [b] := by simpa using heq
          obtain ⟨rfl, -⟩ := List.append_inj' hcut rfl
          exact hbegun pre u post' rfl
      have hsnoc := body_snoc opening printed t
      have hsum := congrArg List.length hsnoc
      rw [List.length_append] at hsum
      by_cases hroom : (body opening (printed ++ [t])).length < len
      · -- the text fits
        have hholds := h.snprintf (hsum ▸ hroom)
        rw [← hsnoc] at hholds
        obtain ⟨k, hk, hcases⟩ := ih hholds hnext
        refine ⟨k + 1, ?_, ?_⟩
        · rwa [List.take_succ_cons, List.append_cons]
        · rw [List.take_succ_cons, List.append_cons]
          have hfalse : (printed ++ [t]).isEmpty = false := by simp
          rw [hfalse] at hcases
          rcases hcases with ⟨hheld, hend⟩ | hover
          · refine .inl ⟨hheld, hend.imp_left fun htake => ?_⟩
            rw [htake]
          · exact .inr hover
      · -- it does not, and the loop ends
        have hover := h.overruns (Nat.le_of_not_lt (hsum ▸ hroom))
        have hstop : ∀ us, fill reserve some false us
            (o.snprintf (if printed.isEmpty = true then t else 44 :: t)) =
            o.snprintf (if printed.isEmpty = true then t else 44 :: t) := by
          intro us
          cases us with
          | nil => rfl
          | cons u us =>
            rw [fill, if_neg]
            have hmem := hover.1
            have hcount := hover.2
            omega
        refine ⟨1, ?_, .inr ?_⟩
        · simpa using hnext
        · rw [hstop]
          exact ⟨hover, by simpa using Nat.le_of_not_lt hroom⟩
    · -- no room for the tail: the loop ends in front of the text
      rw [if_neg hguard]
      refine ⟨0, by simpa using hbegun, .inl ⟨by simpa using h, .inr ?_⟩⟩
      simpa using Nat.le_of_not_lt hguard

/-! ## The whole text -/

variable {entry : α → Option Bytes} {as : List α} {buf : Bytes}

theorem Fits.room {ts : List Bytes} (h : Fits opening tail reserve len ts) {k : Nat}
    (hbegun : Begun opening reserve len (ts.take k)) :
    (body opening (ts.take k)).length + tail.length < len := by
  rcases List.eq_nil_or_concat (ts.take k) with hnil | ⟨pre, t, hsnoc⟩
  · rw [hnil, body_nil]
    exact h.1
  · rw [List.concat_eq_append] at hsnoc
    rw [hsnoc]
    have hts : ts = pre ++ t :: ts.drop k := by
      rw [List.append_cons, ← hsnoc, List.take_append_drop]
    exact h.2 pre t _ hts (hbegun pre t [] hsnoc)

/-- Where the loop has stopped, no text of the rest would have been begun. -/
theorem lt_of_stopped {ts pre post : List Bytes} {t : Bytes} {k : Nat}
    (hend : ts.take k = ts ∨ len ≤ (body opening (ts.take k)).length + reserve)
    (hts : ts = pre ++ t :: post) (hguard : (body opening pre).length + reserve < len) :
    pre.length < k := by
  by_contra hge
  have htake : ts.take k = pre.take k := by
    rw [hts, List.take_append_of_le_length (Nat.le_of_not_lt hge)]
  rcases hend with hall | hfull
  · have hlength := congrArg List.length hall
    rw [htake, hts, List.length_take, List.length_append, List.length_cons] at hlength
    omega
  · rw [htake] at hfull
    have hpre := length_body_le opening (pre.take k) (pre.drop k)
    rw [List.take_append_drop] at hpre
    omega

theorem fits_of_stopped {ts : List Bytes} {k : Nat}
    (hroom : (body opening (ts.take k)).length + tail.length < len)
    (hend : ts.take k = ts ∨ len ≤ (body opening (ts.take k)).length + reserve) :
    Fits opening tail reserve len ts := by
  have hle : ∀ pre post, ts.take k = pre ++ post →
      (body opening pre).length ≤ (body opening (ts.take k)).length := by
    intro pre post heq
    rw [heq]
    exact length_body_le opening pre post
  refine ⟨?_, fun pre t post hts hguard => ?_⟩
  · have hopening := hle [] (ts.take k) rfl
    rw [body_nil] at hopening
    omega
  · have hlt := lt_of_stopped hend hts hguard
    have htake : ts.take k = (pre ++ [t]) ++ post.take (k - pre.length - 1) := by
      rw [hts, List.take_append, List.take_of_length_le (Nat.le_of_lt hlt)]
      obtain ⟨n, hn⟩ : ∃ n, k - pre.length = n + 1 := ⟨k - pre.length - 1, by omega⟩
      rw [hn, List.take_succ_cons, Nat.add_sub_cancel]
      simp
    have hpre := hle _ _ htake
    omega

theorem writeList_spec (hbuf : buf.length = len) (hopening : opening.length < len) :
    ∃ k, Begun opening reserve len ((as.filterMap entry).take k) ∧
      let t := body opening ((as.filterMap entry).take k)
      let o := writeList opening tail reserve entry as buf
      (Holds o len (t ++ tail) ∧ t.length + tail.length < len ∧
          ((as.filterMap entry).take k = as.filterMap entry ∨ len ≤ t.length + reserve)) ∨
        (Holds o len t ∧ len ≤ t.length + tail.length) ∨ Overrun o len ∧ len ≤ t.length := by
  have hstart : Holds (snprintf { mem := buf, written := 0 } opening) len (body opening []) := by
    rw [body_nil]
    refine snprintf_fits (t := []) (m := buf) hbuf ?_
    rwa [List.length_nil, Nat.zero_add]
  have hnone : Begun opening reserve len [] := fun pre t post h => absurd h (by simp)
  have hloop := @fill_spec opening reserve len [] (as.filterMap entry) _ hstart hnone
  simp only [List.nil_append, List.isEmpty_nil] at hloop
  obtain ⟨k, hk, hcases⟩ := hloop
  refine ⟨k, hk, ?_⟩
  simp only
  rw [writeList, fill_filterMap]
  rcases hcases with ⟨hheld, hend⟩ | ⟨hover, hlen⟩
  · by_cases hroom : (body opening ((as.filterMap entry).take k)).length + tail.length < len
    · exact .inl ⟨hheld.close hroom, hroom, hend⟩
    · refine .inr (.inl ⟨?_, Nat.le_of_not_lt hroom⟩)
      have hfull := hheld.2.1
      rw [close_of_full]
      · exact hheld
      · rw [hheld.1, hfull]
        exact Nat.le_of_not_lt hroom
  · refine .inr (.inr ⟨?_, hlen⟩)
    rw [close_of_full]
    · exact hover
    · rw [hover.1]
      exact Nat.le_trans hover.2 (Nat.le_add_right _ _)

/-- If the texts fit, the buffer holds the closed list of the texts that were begun. -/
theorem writeList_of_fits (hbuf : buf.length = len)
    (hfits : Fits opening tail reserve len (as.filterMap entry)) :
    ∃ k, Holds (writeList opening tail reserve entry as buf) len
        (body opening ((as.filterMap entry).take k) ++ tail) ∧
      Begun opening reserve len ((as.filterMap entry).take k) ∧
      ((as.filterMap entry).take k = as.filterMap entry ∨
        len ≤ (body opening ((as.filterMap entry).take k)).length + reserve) := by
  have hopening : opening.length < len := Nat.lt_of_le_of_lt (Nat.le_add_right _ _) hfits.1
  obtain ⟨k, hk, hcases⟩ :=
    @writeList_spec _ opening tail reserve len entry as buf hbuf hopening
  have hroom := hfits.room hk
  rcases hcases with ⟨hheld, -, hend⟩ | ⟨-, hfull⟩ | ⟨-, hfull⟩
  · exact ⟨k, hheld, hk, hend⟩
  · omega
  · omega

/-- If they do not, the count has left the buffer or the list is not closed. -/
theorem writeList_of_not_fits (hbuf : buf.length = len)
    (hfits : ¬ Fits opening tail reserve len (as.filterMap entry)) :
    Overrun (writeList opening tail reserve entry as buf) len ∨
      ∃ k, Begun opening reserve len ((as.filterMap entry).take k) ∧
        len ≤ (body opening ((as.filterMap entry).take k)).length + tail.length ∧
        Holds (writeList opening tail reserve entry as buf) len
          (body opening ((as.filterMap entry).take k)) := by
  by_cases hopening : opening.length < len
  · obtain ⟨k, hk, hcases⟩ :=
      @writeList_spec _ opening tail reserve len entry as buf hbuf hopening
    rcases hcases with ⟨-, hroom, hend⟩ | ⟨hheld, hfull⟩ | ⟨hover, -⟩
    · exact absurd (fits_of_stopped hroom hend) hfits
    · exact .inr ⟨k, hk, hfull, hheld⟩
    · exact .inl hover
  · have hcut : len ≤ opening.length := Nat.le_of_not_lt hopening
    have hover : Overrun (snprintf { mem := buf, written := 0 } opening) len := by
      refine snprintf_overruns (t := []) (m := buf) hbuf ?_
      rwa [List.length_nil, Nat.zero_add]
    have hstop : fill reserve entry true as (snprintf { mem := buf, written := 0 } opening) =
        snprintf { mem := buf, written := 0 } opening := by
      cases as with
      | nil => rfl
      | cons a as =>
        rw [fill, if_neg]
        rw [hover.1]
        exact Nat.not_lt.mpr (Nat.le_trans hover.2 (Nat.le_add_right _ _))
    refine .inl ?_
    rw [writeList, hstop, close_of_full]
    · exact hover
    · rw [hover.1]
      exact Nat.le_trans hover.2 (Nat.le_add_right _ _)

/-- For what holds of the closed lists that are begun and of no open one, it
holds of what is in the buffer exactly if the texts fit. -/
theorem writeList_iff {Good : Bytes → Prop} (hbuf : buf.length = len)
    (hclosed : ∀ k, Begun opening reserve len ((as.filterMap entry).take k) →
      Good (body opening ((as.filterMap entry).take k) ++ tail))
    (hopen : ∀ k, Begun opening reserve len ((as.filterMap entry).take k) →
      ¬ Good (body opening ((as.filterMap entry).take k))) :
    ((writeList opening tail reserve entry as buf).written < len ∧
        Good ((writeList opening tail reserve entry as buf).mem.take
          (writeList opening tail reserve entry as buf).written)) ↔
      Fits opening tail reserve len (as.filterMap entry) := by
  constructor
  · rintro ⟨hlt, hgood⟩
    by_contra hfits
    rcases writeList_of_not_fits hbuf hfits with hover | ⟨k, hk, -, hheld⟩
    · exact absurd hlt (Nat.not_lt.mpr hover.2)
    · rw [hheld.take] at hgood
      exact hopen k hk hgood
  · intro hfits
    obtain ⟨k, hheld, hk, -⟩ := writeList_of_fits hbuf hfits
    refine ⟨hheld.lt, ?_⟩
    rw [hheld.take]
    exact hclosed k hk

/-- For what holds of the closed list of the texts begun under a condition only,
it holds of what is in the buffer exactly if the texts fit and the condition
holds. -/
theorem writeList_begins_iff {Good : Bytes → Prop} {P : Prop} {k : Nat} (hbuf : buf.length = len)
    (hk : Begins opening reserve len (as.filterMap entry) k) (htail : tail.length ≤ reserve)
    (hclosed : Good (body opening ((as.filterMap entry).take k) ++ tail) ↔ P)
    (hopen : ¬ Good (body opening ((as.filterMap entry).take k))) :
    ((writeList opening tail reserve entry as buf).written < len ∧
        Good ((writeList opening tail reserve entry as buf).mem.take
          (writeList opening tail reserve entry as buf).written)) ↔
      Fits opening tail reserve len (as.filterMap entry) ∧ P := by
  by_cases hfits : Fits opening tail reserve len (as.filterMap entry)
  · obtain ⟨j, hheld, hj, hstop⟩ := writeList_of_fits hbuf hfits
    rw [Begins.unique ⟨hj, hstop⟩ hk] at hheld
    rw [hheld.take, hclosed]
    exact ⟨fun h => ⟨hfits, h.2⟩, fun h => ⟨hheld.lt, h.2⟩⟩
  · refine ⟨fun h => ?_, fun h => absurd h.1 hfits⟩
    rcases writeList_of_not_fits hbuf hfits with hover | ⟨j, hj, hfull, hheld⟩
    · exact absurd h.1 (Nat.not_lt.mpr hover.2)
    · -- with no room for the tail nothing more was begun
      rw [Begins.unique ⟨hj, .inr (by omega)⟩ hk] at hheld
      rw [hheld.take] at h
      exact absurd h.2 hopen

/-- For what holds of the closed list of all the texts only, it holds of what is
in the buffer exactly if they are all begun and fit. -/
theorem writeList_whole_iff {Good : Bytes → Prop} {P : Prop} (hbuf : buf.length = len)
    (hclosed : ∀ k, Good (body opening ((as.filterMap entry).take k) ++ tail) ↔
      (as.filterMap entry).take k = as.filterMap entry ∧ P)
    (hopen : ∀ k, ¬ Good (body opening ((as.filterMap entry).take k))) :
    ((writeList opening tail reserve entry as buf).written < len ∧
        Good ((writeList opening tail reserve entry as buf).mem.take
          (writeList opening tail reserve entry as buf).written)) ↔
      Whole opening tail reserve len (as.filterMap entry) ∧ P := by
  constructor
  · rintro ⟨hlt, hgood⟩
    by_cases hfits : Fits opening tail reserve len (as.filterMap entry)
    · obtain ⟨k, hheld, hbegun, -⟩ := writeList_of_fits hbuf hfits
      rw [hheld.take] at hgood
      obtain ⟨hall, hP⟩ := (hclosed k).mp hgood
      have hroom := hfits.room hbegun
      rw [hall] at hbegun hroom
      exact ⟨⟨hbegun, hroom⟩, hP⟩
    · exfalso
      rcases writeList_of_not_fits hbuf hfits with hover | ⟨k, -, -, hheld⟩
      · exact absurd hlt (Nat.not_lt.mpr hover.2)
      · rw [hheld.take] at hgood
        exact hopen k hgood
  · rintro ⟨hwhole, hP⟩
    obtain ⟨k, hheld, -, hend⟩ := writeList_of_fits hbuf hwhole.fits
    refine ⟨hheld.lt, ?_⟩
    rw [hheld.take]
    exact (hclosed k).mpr ⟨hwhole.begun.take_eq hend, hP⟩

end

end OutBuf

end ContainerSim.Lib
