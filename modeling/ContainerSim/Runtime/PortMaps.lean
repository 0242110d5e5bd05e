import ContainerSim.Lib.Lines
import ContainerSim.Runtime.Ops

/-!
# Port maps as text

`bridge_parse_port_maps` reads what the user and the metadata file give,
`bridge_serialize_port_maps` writes it. The parser only lets ports between 1
and 65535 and short words for the protocol through, and eight such port maps
fill the 127 characters of the text exactly in the worst case; so what was
parsed once survives writing and reading.
-/

namespace ContainerSim.Runtime

open Lib

/-- One piece of `bridge_serialize_port_maps`. -/
def portMapText (pm : PortMapping) : Bytes :=
  fmtNat pm.hostPort.toNat ++ bytes ":" ++ fmtNat pm.containerPort.toNat ++ bytes "/" ++ pm.proto

/-- `bridge_serialize_port_maps`: the text ends where the buffer does. -/
def bridgeSerializePortMaps (maps : List PortMapping) (bufSize : Nat) : Bytes :=
  snprintfStr bufSize ((bytes ",").intercalate (maps.map portMapText))

/-- What `"/%3s"` reads behind the ports; `"tcp"` stays when there is nothing. -/
def scanProto : Bytes → Bytes
  | 47 :: rest =>
    match ((rest.dropWhile isSpace).takeWhile fun c => !isSpace c).take 3 with
    | [] => bytes "tcp"
    | proto => proto
  | _ => bytes "tcp"

/-- `sscanf(tok, "%d:%d/%3s", &hp, &cp, proto)` with both ports read. -/
def scanPortMap (tok : Bytes) : Option (Int × Int × Bytes) :=
  match scanInt tok with
  | some (hp, 58 :: rest) => (scanInt rest).map fun r => (hp, r.1, scanProto r.2)
  | _ => none

section
variable (readInt : Int → Int)

/-- A token, with the `int` that `%d` stores for a written number. -/
def portMapOfTokenBy (tok : Bytes) : Option PortMapping :=
  match scanPortMap tok with
  | some (hp, cp, proto) =>
    if readInt hp < 1 ∨ readInt hp > 65535 ∨ readInt cp < 1 ∨ readInt cp > 65535 then none
    else
      some
        { hostPort := UInt16.ofNat (readInt hp).toNat
          containerPort := UInt16.ofNat (readInt cp).toNat
          proto := snprintfStr 4 proto }
  | none => none

/-- `bridge_parse_port_maps` with the `int` that `%d` stores; `strtok` passes over
empty tokens. -/
def bridgeParsePortMapsBy (str : Bytes) (maxMaps : Nat) : List PortMapping :=
  ((((snprintfStr 256 str).splitOn 44).filter (· ≠ [])).filterMap
    (portMapOfTokenBy readInt)).take maxMaps

end

/-- `%d` as in the C library: `strtol`, and the cut to 32 bits. -/
def cutInt (i : Int) : Int := (Int32.ofInt (max (-2 ^ 63) (min i (2 ^ 63 - 1)))).toInt

/-- `bridge_parse_port_maps`. -/
def bridgeParsePortMaps (str : Bytes) (maxMaps : Nat) : List PortMapping :=
  bridgeParsePortMapsBy cutInt str maxMaps

/-! ## What the parser accepts -/

/-- What `bridge_parse_port_maps` makes of a token. -/
structure PortMapping.Valid (pm : PortMapping) : Prop where
  hostPort : pm.hostPort.toNat ≠ 0
  containerPort : pm.containerPort.toNat ≠ 0
  proto : pm.proto ≠ []
  short : pm.proto.length ≤ 3
  word : ∀ c ∈ pm.proto, isSpace c = false ∧ c ≠ 44

/-- The protocol is `tcp` or a word out of the text. -/
theorem scanProto_spec (s : Bytes) :
    scanProto s = bytes "tcp" ∨
      (scanProto s ≠ [] ∧ (scanProto s).length ≤ 3 ∧
        ∀ c ∈ scanProto s, isSpace c = false ∧ c ∈ s) := by
  unfold scanProto
  split
  · rename_i rest
    split
    · exact .inl rfl
    · rename_i proto hword
      refine .inr ⟨hword, List.length_take_le _ _, fun c hc => ?_⟩
      have hc' := List.mem_of_mem_take hc
      have hspace := List.mem_takeWhile_imp hc'
      have hmem := (List.dropWhile_sublist _).mem (List.takeWhile_prefix _ |>.mem hc')
      exact ⟨by simpa using hspace, List.mem_cons_of_mem _ hmem⟩
  · exact .inl rfl

/-- What is left of a text after a number is the end of it. -/
theorem scanNat_rest {b : Nat} {s rest : Bytes} {n : Nat} (h : scanNat b s = some (n, rest)) :
    rest <:+ s := by
  unfold scanNat at h
  split at h
  · cases h
  · simp only [Option.some.injEq, Prod.mk.injEq] at h
    exact h.2 ▸ List.dropWhile_suffix _

theorem scanInt_rest {s rest : Bytes} {i : Int} (h : scanInt s = some (i, rest)) :
    rest <:+ s := by
  have hdrop : s.dropWhile isSpace <:+ s := List.dropWhile_suffix _
  have hscan : ∀ (f : Nat → Int) (t : Bytes),
      (scanNat 10 t).map (fun r => (f r.1, r.2)) = some (i, rest) → rest <:+ t := by
    intro f t ht
    obtain ⟨⟨n, rest'⟩, hn, heq⟩ := Option.map_eq_some_iff.mp ht
    cases heq
    exact scanNat_rest hn
  unfold scanInt at h
  split at h
  · rename_i t heq
    exact (hscan (fun n => -(n : Int)) t h).trans ((List.suffix_cons 45 t).trans (heq ▸ hdrop))
  · rename_i t heq
    exact (hscan (fun n => (n : Int)) t h).trans ((List.suffix_cons 43 t).trans (heq ▸ hdrop))
  · exact (hscan (fun n => (n : Int)) _ h).trans hdrop

/-- The protocol that is read is one to three characters of a word. -/
theorem scanPortMap_proto {tok proto : Bytes} {hp cp : Int} (hcomma : (44 : UInt8) ∉ tok)
    (h : scanPortMap tok = some (hp, cp, proto)) :
    proto ≠ [] ∧ proto.length ≤ 3 ∧ ∀ c ∈ proto, isSpace c = false ∧ c ≠ 44 := by
  -- the protocol comes from behind the second number
  obtain ⟨t, hproto, ht⟩ : ∃ t, proto = scanProto t ∧ t <:+ tok := by
    unfold scanPortMap at h
    split at h
    · rename_i rest hrest
      obtain ⟨⟨n, t⟩, hn, heq⟩ := Option.map_eq_some_iff.mp h
      cases heq
      exact ⟨t, rfl, (scanInt_rest hn).trans
        ((List.suffix_cons 58 rest).trans (scanInt_rest hrest))⟩
    · cases h
  rcases scanProto_spec t with htcp | ⟨hne, hlen, hall⟩
  · rw [hproto, htcp]
    have hall : (bytes "tcp").all (fun c => decide (isSpace c = false ∧ c ≠ 44)) = true := by
      decide
    refine ⟨by decide, by decide, ?_⟩
    exact fun c hc => of_decide_eq_true (List.all_eq_true.mp hall c hc)
  · rw [hproto]
    refine ⟨hne, hlen, fun c hc => ⟨(hall c hc).1, ?_⟩⟩
    rintro rfl
    exact hcomma (ht.mem (hall _ hc).2)

theorem portMapOfTokenBy_valid {readInt : Int → Int} {tok : Bytes} {pm : PortMapping}
    (hcomma : (44 : UInt8) ∉ tok) (h : portMapOfTokenBy readInt tok = some pm) : pm.Valid := by
  unfold portMapOfTokenBy at h
  split at h
  · rename_i hp cp proto hscan
    split at h
    · cases h
    · rename_i hrange
      cases h
      obtain ⟨hne, hlen, hall⟩ := scanPortMap_proto hcomma hscan
      have hcut : snprintfStr 4 proto = proto := snprintfStr_eq_self hlen
      have hport : ∀ p : Int, 1 ≤ p → p ≤ 65535 → (UInt16.ofNat p.toNat).toNat ≠ 0 := by
        intro p h1 h2
        rw [UInt16.toNat_ofNat']
        omega
      exact ⟨hport _ (by omega) (by omega), hport _ (by omega) (by omega),
        hcut.symm ▸ hne, hcut.symm ▸ hlen, hcut.symm ▸ hall⟩
  · cases h

/-- Whatever `%d` stores for a number that is no `int`. -/
theorem bridgeParsePortMapsBy_valid {readInt : Int → Int} {str : Bytes} {maxMaps : Nat}
    {pm : PortMapping} (h : pm ∈ bridgeParsePortMapsBy readInt str maxMaps) : pm.Valid := by
  obtain ⟨tok, htok, hpm⟩ := List.mem_filterMap.mp (List.mem_of_mem_take h)
  exact portMapOfTokenBy_valid (not_mem_of_mem_splitOn (List.mem_filter.mp htok).1) hpm

theorem bridgeParsePortMaps_valid {str : Bytes} {maxMaps : Nat} {pm : PortMapping}
    (h : pm ∈ bridgeParsePortMaps str maxMaps) : pm.Valid :=
  bridgeParsePortMapsBy_valid h

/-! ## Reading back what was written -/

theorem portMapText_length {pm : PortMapping} (h : pm.Valid) : (portMapText pm).length ≤ 15 := by
  have hport : ∀ p : UInt16, (fmtNat p.toNat).length ≤ 5 := fun p =>
    fmtNat_length_le (k := 5) (by omega) (Nat.lt_trans p.toNat_lt (by decide))
  have h1 := hport pm.hostPort
  have h2 := hport pm.containerPort
  have h3 := h.short
  have h4 : (bytes ":").length = 1 ∧ (bytes "/").length = 1 := by decide
  simp only [portMapText, List.length_append]
  omega

theorem isDigit_comma : isDigit 10 44 = false := by decide

theorem not_comma_portMapText {pm : PortMapping} (h : pm.Valid) : (44 : UInt8) ∉ portMapText pm := by
  have hnum : ∀ n, (44 : UInt8) ∉ fmtNat n := by
    intro n hn
    have := fmtBase_isDigit (b := 10) (by omega) (by omega) n 44 hn
    rw [isDigit_comma] at this
    cases this
  simp only [portMapText, List.mem_append, not_or]
  exact ⟨⟨⟨⟨hnum _, by decide⟩, hnum _⟩, by decide⟩, fun hmem => (h.word 44 hmem).2 rfl⟩

theorem scanProto_word {proto : Bytes} (hne : proto ≠ []) (hlen : proto.length ≤ 3)
    (hword : ∀ c ∈ proto, isSpace c = false) : scanProto (bytes "/" ++ proto) = proto := by
  have hdrop : proto.dropWhile isSpace = proto := by
    cases proto with
    | nil => exact absurd rfl hne
    | cons c t =>
      rw [List.dropWhile_cons, hword c List.mem_cons_self]
      rfl
  have htake : (proto.takeWhile fun c => !isSpace c) = proto := by
    rw [List.takeWhile_eq_self_iff]
    intro c hc
    rw [hword c hc]
    rfl
  show (match ((proto.dropWhile isSpace).takeWhile fun c => !isSpace c).take 3 with
    | [] => bytes "tcp"
    | word => word) = proto
  rw [hdrop, htake, List.take_of_length_le hlen]
  split
  · exact absurd rfl hne
  · rfl

/-- `%d` stores a number that is an `int` as it was written. -/
def ReadsInt (readInt : Int → Int) : Prop := ∀ i, -2 ^ 31 ≤ i → i < 2 ^ 31 → readInt i = i

theorem readsInt_cutInt : ReadsInt cutInt := by
  intro i hmin hmax
  have hclamp : max (-2 ^ 63) (min i (2 ^ 63 - 1)) = i := by omega
  rw [cutInt, hclamp]
  exact Int32.toInt_ofInt_of_le hmin hmax

theorem portMapOfTokenBy_portMapText {readInt : Int → Int} (hread : ReadsInt readInt)
    {pm : PortMapping} (h : pm.Valid) : portMapOfTokenBy readInt (portMapText pm) = some pm := by
  have hslash : NoDigit 10 (bytes "/" ++ pm.proto) := NoDigit.cons (by decide) _
  have hcolon : ∀ s, NoDigit 10 (58 :: s) := NoDigit.cons (by decide)
  have hhost : scanInt (portMapText pm) = some ((pm.hostPort.toNat : Int),
      58 :: (fmtNat pm.containerPort.toNat ++ (bytes "/" ++ pm.proto))) := by
    have htext : portMapText pm = fmtNat pm.hostPort.toNat ++
        58 :: (fmtNat pm.containerPort.toNat ++ (bytes "/" ++ pm.proto)) := by
      simp only [portMapText, List.append_assoc]
      rfl
    rw [htext]
    exact scanInt_fmtNat _ (hcolon _)
  have hscan : scanPortMap (portMapText pm) =
      some ((pm.hostPort.toNat : Int), (pm.containerPort.toNat : Int), pm.proto) := by
    rw [scanPortMap, hhost]
    simp only
    rw [scanInt_fmtNat _ hslash, Option.map_some,
      scanProto_word h.proto h.short fun c hc => (h.word c hc).1]
  have h1 := h.hostPort
  have h2 := h.containerPort
  have h3 := pm.hostPort.toNat_lt
  have h4 := pm.containerPort.toNat_lt
  rw [portMapOfTokenBy, hscan]
  simp only
  rw [hread pm.hostPort.toNat (by omega) (by omega),
    hread pm.containerPort.toNat (by omega) (by omega), if_neg (by omega),
    snprintfStr_eq_self h.short, Int.toNat_natCast, Int.toNat_natCast, UInt16.ofNat_toNat,
    UInt16.ofNat_toNat]

/-- The text of at most eight port maps fits its buffer. -/
theorem bridgeSerializePortMaps_eq {maps : List PortMapping} (hlen : maps.length ≤ maxPortMaps)
    (h : ∀ pm ∈ maps, pm.Valid) :
    bridgeSerializePortMaps maps 128 = [44].intercalate (maps.map portMapText) := by
  refine snprintfStr_eq_self ?_
  have hle := length_intercalate_le 44 (maps.map portMapText) (k := 15) (by
    intro l hl
    obtain ⟨pm, hpm, rfl⟩ := List.mem_map.mp hl
    exact portMapText_length (h pm hpm))
  rw [List.length_map] at hle
  have hmax : maps.length ≤ 8 := hlen
  show ([44].intercalate (maps.map portMapText)).length ≤ 128 - 1
  omega

/-- `bridge_parse_port_maps` reads back what `bridge_serialize_port_maps` writes. -/
theorem bridgeParsePortMapsBy_serialize {readInt : Int → Int} (hread : ReadsInt readInt)
    {maps : List PortMapping} (hlen : maps.length ≤ maxPortMaps) (h : ∀ pm ∈ maps, pm.Valid) :
    bridgeParsePortMapsBy readInt (bridgeSerializePortMaps maps 128) maxPortMaps = maps := by
  have hfit : (bridgeSerializePortMaps maps 128).length ≤ 256 - 1 :=
    Nat.le_trans (snprintfStr_length_le 128 _) (by omega)
  rw [bridgeParsePortMapsBy, snprintfStr_eq_self hfit, bridgeSerializePortMaps_eq hlen h]
  by_cases hnil : maps = []
  · subst hnil
    rfl
  have hsplit : ([44].intercalate (maps.map portMapText)).splitOn 44 = maps.map portMapText := by
    refine List.splitOn_intercalate 44 ?_ (by simpa using hnil)
    intro l hl
    obtain ⟨pm, hpm, rfl⟩ := List.mem_map.mp hl
    exact not_comma_portMapText (h pm hpm)
  have hkeep : (maps.map portMapText).filter (· ≠ []) = maps.map portMapText := by
    rw [List.filter_eq_self]
    intro l hl
    obtain ⟨pm, hpm, rfl⟩ := List.mem_map.mp hl
    simp [portMapText, fmtNat, fmtBase_ne_nil]
  have hmaps : (maps.map portMapText).filterMap (portMapOfTokenBy readInt) = maps := by
    rw [List.filterMap_map]
    calc maps.filterMap (portMapOfTokenBy readInt ∘ portMapText)
        = maps.filterMap some :=
          List.filterMap_congr fun pm hpm => portMapOfTokenBy_portMapText hread (h pm hpm)
      _ = maps := List.filterMap_some
  rw [hsplit, hkeep, hmaps]
  exact List.take_of_length_le hlen

theorem bridgeParsePortMaps_serialize {maps : List PortMapping}
    (hlen : maps.length ≤ maxPortMaps) (h : ∀ pm ∈ maps, pm.Valid) :
    bridgeParsePortMaps (bridgeSerializePortMaps maps 128) maxPortMaps = maps :=
  bridgeParsePortMapsBy_serialize readsInt_cutInt hlen h

/-- Port maps that were parsed from any text are valid, fit the text they are
written to, and are parsed from it again. -/
theorem port_maps_round_trip {readInt : Int → Int} (hread : ReadsInt readInt) (str : Bytes) :
    let maps := bridgeParsePortMapsBy readInt str maxPortMaps
    (∀ pm ∈ maps, pm.Valid) ∧ ([44].intercalate (maps.map portMapText)).length < 128 ∧
      bridgeSerializePortMaps maps 128 = [44].intercalate (maps.map portMapText) ∧
      bridgeParsePortMapsBy readInt (bridgeSerializePortMaps maps 128) maxPortMaps = maps := by
  intro maps
  have hvalid : ∀ pm ∈ maps, pm.Valid := fun pm hpm => bridgeParsePortMapsBy_valid hpm
  have hlen : maps.length ≤ maxPortMaps := List.length_take_le _ _
  have htext := bridgeSerializePortMaps_eq hlen hvalid
  refine ⟨hvalid, ?_, htext, bridgeParsePortMapsBy_serialize hread hlen hvalid⟩
  rw [← htext]
  exact Nat.lt_of_le_of_lt (snprintfStr_length_le 128 _) (by omega)

/-- A port that is no `int`, a protocol that is cut and one that is missing. -/
theorem port_maps_round_trip_cut :
    let maps := bridgeParsePortMapsBy cutInt (bytes "4294975376:80, 53 :53,53:053/udplite") maxPortMaps
    maps.length = 2 ∧
      bridgeParsePortMapsBy cutInt (bridgeSerializePortMaps maps 128) maxPortMaps = maps := by
  intro maps
  exact ⟨by decide +kernel, (port_maps_round_trip readsInt_cutInt _).2.2.2⟩

end ContainerSim.Runtime
