import ChangeReport.Proofs.Text.Lines
import ChangeReport.Proofs.Web.Percent
import ChangeReport.Web.Url

/-! The path of an address, as it goes over the wire. An address is that of a folder on a server with
segments after it. Only dots among them, plain or escaped, are taken away; all other segments of
plain characters are sent as they are. -/
namespace ChangeReport.Web
open Text

/-! ## Plain segments -/

theorem range_of_isPlain {c : Char} (h : isPlain c = true) : 0x20 < c.toNat ∧ c.toNat < 0x80 := by
  simp only [isPlain, isUnreserved, Bool.or_eq_true, Bool.and_eq_true, decide_eq_true_eq,
    beq_iff_eq] at h
  rcases h with codes | rfl
  · omega
  · decide

theorem isPathByte_of_isPlain {c : Char} (h : isPlain c = true) : isPathByte c.toNat = true := by
  have every : ∀ n < 0x80, isPlain (Char.ofNat n) = true → isPathByte n = true := by decide
  refine every c.toNat (range_of_isPlain h).2 ?_
  rwa [Char.ofNat_toNat]

theorem encodeBytes_of_isPlain {cs : List Char} (h : ∀ c ∈ cs, isPlain c = true) :
    encodeBytes isPathByte (toBytes cs) = cs := by
  induction cs with
  | nil => rfl
  | cons c cs ih =>
      obtain ⟨plain, rest⟩ := List.forall_mem_cons.1 h
      have bytes : charBytes c = [c.toNat] := if_pos (range_of_isPlain plain).2
      rw [toBytes, List.flatMap_cons, ← toBytes, bytes, List.singleton_append, encodeBytes,
        List.flatMap_cons, ← encodeBytes, ih rest, encodeByte, if_pos (isPathByte_of_isPlain plain),
        Char.ofNat_toNat, List.singleton_append]

/-! ## Paths -/

/-- Segments, each after its slash. -/
def pathOf (segments : List (List Char)) : List Char := segments.flatMap ('/' :: ·)

variable {segments : List (List Char)}

theorem head?_pathOf (more : segments ≠ []) : (pathOf segments).head? = some '/' := by
  obtain ⟨s, rest, rfl⟩ := List.exists_cons_of_ne_nil more
  rfl

theorem splitChars_pathOf (h : ∀ s ∈ segments, '/' ∉ s) (a : List Char) :
    splitChars '/' (a ++ pathOf segments) = splitChars '/' a ++ segments := by
  induction segments generalizing a with
  | nil => simp [pathOf]
  | cons s rest ih =>
      obtain ⟨own, later⟩ := List.forall_mem_cons.1 h
      rw [pathOf, List.flatMap_cons, ← pathOf, List.cons_append, splitChars_append_sep, ih later,
        splitChars_of_notMem own, List.singleton_append]

/-- Segments are known from their path. -/
theorem pathOf_inj {others : List (List Char)} (h : ∀ s ∈ segments, '/' ∉ s)
    (h' : ∀ s ∈ others, '/' ∉ s) (same : pathOf segments = pathOf others) : segments = others := by
  have pieces := congrArg (splitChars '/') same
  rw [← List.nil_append (pathOf segments), ← List.nil_append (pathOf others), splitChars_pathOf h,
    splitChars_pathOf h', List.append_right_inj] at pieces
  exact pieces

/-! ## Dots -/

theorem eq_or_of_toLower {c d : Char} (h : c.toLower = d) :
    c = d ∨ 65 ≤ c.toNat ∧ c.toNat + 32 = d.toNat := by
  delta Char.toLower at h
  split at h
  next capital =>
    have range : 65 ≤ c.val.toNat ∧ c.val.toNat ≤ 90 := capital
    have shift : ('a'.val - 'A'.val).toNat = 32 := by decide
    subst h
    refine .inr ⟨range.1, ?_⟩
    change c.val.toNat + 32 = (c.val + ('a'.val - 'A'.val)).toNat
    rw [UInt32.toNat_add, shift]
    omega
  next => exact .inl h

/-- The spellings of a dot. -/
def dots : List (List Char) := [".".toList, "%2e".toList, "%2E".toList]

theorem mem_dots_of_isDot {cs : List Char} (h : isDot cs = true) : cs ∈ dots := by
  rw [isDot, Bool.or_eq_true, beq_iff_eq, beq_iff_eq] at h
  rcases h with rfl | folded
  · decide
  · obtain ⟨x, rest, rfl, percent, folded⟩ := List.map_eq_cons_iff.1 folded
    obtain ⟨y, rest, rfl, two, folded⟩ := List.map_eq_cons_iff.1 folded
    obtain ⟨z, rest, rfl, e, folded⟩ := List.map_eq_cons_iff.1 folded
    obtain rfl := List.map_eq_nil_iff.1 folded
    have codes : '%'.toNat = 37 ∧ '2'.toNat = 50 ∧ 'e'.toNat = 101 ∧ 'E'.toNat = 69 := by decide
    obtain rfl : x = '%' := (eq_or_of_toLower percent).resolve_right (by omega)
    obtain rfl : y = '2' := (eq_or_of_toLower two).resolve_right (by omega)
    rcases eq_or_of_toLower e with rfl | capital
    · decide
    · obtain rfl : z = 'E' := Char.toNat_inj.1 (by omega)
      decide

theorem exists_of_isDoubleDot {cs : List Char} (h : isDoubleDot cs = true) :
    ∃ a ∈ dots, ∃ b ∈ dots, cs = a ++ b := by
  have halves : ∃ n, isDot (cs.take n) = true ∧ isDot (cs.drop n) = true := by
    simp only [isDoubleDot, Bool.or_eq_true, Bool.and_eq_true] at h
    exact h.elim (⟨1, ·⟩) (⟨3, ·⟩)
  obtain ⟨n, first, second⟩ := halves
  exact ⟨_, mem_dots_of_isDot first, _, mem_dots_of_isDot second, (List.take_append_drop n cs).symm⟩

/-- Whether a segment is taken away. -/
def isDots (segment : List Char) : Bool := isDoubleDot segment || isSingleDot segment

/-- Without dots and escapes a segment is kept. -/
theorem isDots_of_notMem {cs : List Char} (dot : '.' ∉ cs) (percent : '%' ∉ cs) :
    isDots cs = false := by
  have marked : ∀ a ∈ dots, '.' ∈ a ∨ '%' ∈ a := by decide
  have outside : ∀ a ∈ dots, ¬ a ⊆ cs := fun a spelled within =>
    (marked a spelled).elim (fun member => dot (within member)) fun member => percent (within member)
  rw [isDots, Bool.or_eq_false_iff]
  refine ⟨Bool.eq_false_iff.2 fun double => ?_, Bool.eq_false_iff.2 fun single => ?_⟩
  · obtain ⟨a, spelled, b, -, rfl⟩ := exists_of_isDoubleDot double
    exact outside a spelled (List.subset_append_left a b)
  · exact outside cs (mem_dots_of_isDot single) (List.Subset.refl cs)

/-! ## Segments that take effect one after another -/

/-- The segments that are left after one more of them, the last one first. -/
def enter (done : List (List Char)) (segment : List Char) : List (List Char) :=
  if isDoubleDot segment then done.drop 1
  else if isSingleDot segment then done
  else segment :: done

theorem enter_of_not_isDots {segment : List Char} (h : isDots segment = false)
    (done : List (List Char)) : enter done segment = segment :: done := by
  rw [isDots, Bool.or_eq_false_iff] at h
  simp [enter, h.1, h.2]

theorem enter_subset (done : List (List Char)) (segment : List Char) :
    enter done segment ⊆ segment :: done := by
  rw [enter]
  split_ifs
  · exact fun s member => List.mem_cons_of_mem _ (List.mem_of_mem_drop member)
  · exact List.subset_cons_self _ _
  · exact List.Subset.refl _

theorem enter_cons (s : List Char) (done : List (List Char)) (segment : List Char) :
    enter (s :: done) segment = enter [s] segment ++ done := by
  rw [enter, enter]
  split_ifs <;> rfl

/-- A segment that is taken away stands for one dot or for two of them. -/
theorem enter_cases {segment : List Char} {bs : List Nat} (h : Encodes segment bs)
    (s : List Char) : bs = [0x2E, 0x2E] ∧ enter [s] segment = [] ∨
      bs = [0x2E] ∧ enter [s] segment = [s] ∨ enter [s] segment = [segment, s] := by
  have read := decodeSegment?_eq_some_iff.2 h
  -- of the spellings of a dot those with a small digit are no segments, and all others read as it
  by_cases double : isDoubleDot segment = true
  · have bytes : ∀ a ∈ dots, ∀ b ∈ dots,
        (decodeSegment? (a ++ b)).getD [0x2E, 0x2E] = [0x2E, 0x2E] := by decide
    obtain ⟨a, first, b, second, rfl⟩ := exists_of_isDoubleDot double
    have both := bytes a first b second
    rw [read] at both
    exact .inl ⟨both, by simp [enter, double]⟩
  · by_cases single : isSingleDot segment = true
    · have bytes : ∀ a ∈ dots, (decodeSegment? a).getD [0x2E] = [0x2E] := by decide
      have one := bytes segment (mem_dots_of_isDot single)
      rw [read] at one
      exact .inr (.inl ⟨one, by simp [enter, double, single]⟩)
    · exact .inr (.inr (by simp [enter, double, single]))

theorem enter_inj {segment other s : List Char} {bs bs' : List Nat} (h : Encodes segment bs)
    (h' : Encodes other bs') (same : enter [s] segment = enter [s] other) : bs = bs' := by
  rcases enter_cases h s with ⟨two, first⟩ | ⟨one, first⟩ | first <;>
    rcases enter_cases h' s with ⟨two', second⟩ | ⟨one', second⟩ | second <;>
    rw [first, second] at same <;> cases same
  · exact two.trans two'.symm
  · exact one.trans one'.symm
  · exact h.unique h'

theorem resolve_append {rest : List (List Char)} (more : rest ≠ []) (done first : List (List Char)) :
    resolve done (first ++ rest) = resolve (first.foldl enter done) rest := by
  induction first generalizing done with
  | nil => rfl
  | cons s first ih =>
      rw [List.foldl_cons, ← ih, enter, List.cons_append, resolve]
      · split_ifs <;> rfl
      · exact List.append_ne_nil_of_right_ne_nil _ more

theorem resolve_of_not_isDots (more : segments ≠ []) (h : ∀ s ∈ segments, isDots s = false)
    (done : List (List Char)) : resolve done segments = segments.reverse ++ done := by
  induction segments generalizing done with
  | nil => exact absurd rfl more
  | cons s rest ih =>
      obtain ⟨first, later⟩ := List.forall_mem_cons.1 h
      by_cases last : rest = []
      · subst last
        rw [isDots, Bool.or_eq_false_iff] at first
        simp [resolve, first.1, first.2]
      · have step := resolve_append last done [s]
        rw [List.singleton_append] at step
        rw [step, List.foldl_cons, List.foldl_nil, enter_of_not_isDots first, ih last later,
          List.reverse_cons, List.append_assoc, List.singleton_append]

/-! ## Addresses -/

/-- A folder on a server. -/
structure Address where
  scheme : List Char
  host : List Char
  folder : List Char

namespace Address

def text (a : Address) : List Char := a.scheme ++ ':' :: '/' :: '/' :: (a.host ++ a.folder)

/-- There is a host, and nothing but a folder after it. -/
structure Valid (a : Address) : Prop where
  scheme : ':' ∉ a.scheme
  host : a.host ≠ []
  server : a.host.any isAuthorityEnd = false
  rooted : a.folder = [] ∨ a.folder.head? = some '/'
  folder : '?' ∉ a.folder ∧ '#' ∉ a.folder
  visible : a.text.all (0x20 < ·.toNat) = true

end Address

theorem dropWhile_of_head? {p : Char → Bool} {cs : List Char} (h : ∀ c ∈ cs.head?, p c = false) :
    cs.dropWhile p = cs := by
  cases cs with
  | nil => rfl
  | cons c cs => exact List.dropWhile_cons_of_neg (by simp [h c rfl])

/-- Without blanks and controls there is nothing to clean. -/
theorem cleanUrl_of_visible {s : String} (h : ∀ c ∈ s.toList, 0x20 < c.toNat) :
    cleanUrl s = s.toList := by
  have shown : ∀ c ∈ s.toList, isPadding c = false := fun c member => by
    have code := h c member
    simpa [isPadding] using code
  have kept : ∀ c ∈ s.toList, isDropped c = false := fun c member => by
    have code := h c member
    refine Bool.eq_false_iff.2 fun dropped => ?_
    simp only [isDropped, Bool.or_eq_true, beq_iff_eq] at dropped
    rcases dropped with (rfl | rfl) | rfl <;> exact absurd code (by decide)
  have start : s.toList.dropWhile isPadding = s.toList :=
    dropWhile_of_head? fun c first => shown c (List.mem_of_head? first)
  have stop : s.toList.reverse.dropWhile isPadding = s.toList.reverse :=
    dropWhile_of_head? fun c last => shown c (List.mem_reverse.1 (List.mem_of_head? last))
  rw [cleanUrl, start, stop, List.reverse_reverse]
  exact List.filter_eq_self.2 fun c member => by rw [kept c member]; rfl

variable {a : Address}

theorem Address.Valid.head?_append (valid : a.Valid) {cs : List Char}
    (start : cs.head? = some '/') : (a.folder ++ cs).head? = some '/' := by
  rcases valid.rooted with none | slash
  · rw [none, List.nil_append, start]
  · rw [List.head?_append, slash, Option.some_or]

theorem afterAuthority_text (valid : a.Valid) {cs : List Char} (start : cs.head? = some '/') :
    afterAuthority (a.text ++ cs) = a.folder ++ cs := by
  have slashes : (a.host ++ (a.folder ++ cs)).dropWhile (fun c => c == '/' || c == '\\') =
      a.host ++ (a.folder ++ cs) := by
    refine dropWhile_of_head? fun c first => ?_
    obtain ⟨d, host, own⟩ := List.exists_cons_of_ne_nil valid.host
    obtain rfl : d = c := by simpa [own] using first
    have server := List.any_eq_false.1 valid.server d (by simp [own])
    simp only [isAuthorityEnd, Bool.not_eq_true, Bool.or_eq_false_iff] at server ⊢
    exact server.1.1
  have server : (a.host ++ (a.folder ++ cs)).dropWhile (fun c => !isAuthorityEnd c) =
      a.folder ++ cs := by
    have own : ∀ c ∈ a.host, (!isAuthorityEnd c) = true := fun c member => by
      simpa using List.any_eq_false.1 valid.server c member
    rw [List.dropWhile_append_of_pos own]
    refine dropWhile_of_head? fun c first => ?_
    obtain rfl : '/' = c := by simpa [valid.head?_append start] using first
    rfl
  have split : a.text ++ cs = a.scheme ++ ':' :: ('/' :: '/' :: (a.host ++ (a.folder ++ cs))) := by
    simp [Address.text]
  rw [split, afterAuthority, cutChars?_append_sep valid.scheme]
  simp only [List.dropWhile_cons, beq_self_eq_true, Bool.true_or, if_true, slashes, server]

theorem ofChars_of_notMem {cs : List Char} (query : '?' ∉ cs) (fragment : '#' ∉ cs) :
    Target.ofChars cs = ⟨cs, none⟩ := by
  have whole : cs.takeWhile (· ≠ '#') = cs :=
    List.takeWhile_eq_self_iff.2 fun c member => decide_eq_true fun same => fragment (same ▸ member)
  rw [Target.ofChars, whole, cutChars?_of_notMem query]

/-- Both slashes set off segments. -/
def slashed (cs : List Char) : List Char := cs.map fun c => if c = '\\' then '/' else c

theorem splitPath_of_head? {cs : List Char} (start : cs.head? = some '/') :
    splitPath cs = (splitChars '/' (slashed cs)).drop 1 := by
  obtain ⟨tail, rfl⟩ := List.head?_eq_some_iff.1 start
  rfl

/-- The segments of the folder that are left, the last one first. -/
def Address.entered (a : Address) : List (List Char) :=
  ((splitChars '/' (slashed a.folder)).drop 1).foldl enter []

/-- Segments as they are sent. -/
def sent (segments : List (List Char)) : List Char :=
  segments.flatMap fun s => '/' :: encodeBytes isPathByte (toBytes s)

theorem sent_append (others : List (List Char)) :
    sent (segments ++ others) = sent segments ++ sent others := by
  simp [sent]

section

variable (plain : ∀ s ∈ segments, ∀ c ∈ s, isPlain c = true)
include plain

theorem slash_notMem_of_isPlain : ∀ s ∈ segments, '/' ∉ s := fun s segment slash => by
  cases plain s segment '/' slash

theorem eq_or_isPlain_of_mem_pathOf {c : Char} (member : c ∈ pathOf segments) :
    c = '/' ∨ isPlain c = true := by
  obtain ⟨s, segment, member⟩ := List.mem_flatMap.1 member
  exact (List.mem_cons.1 member).imp_right (plain s segment c)

theorem notMem_pathOf {c : Char} (other : isPlain c = false) (slash : c ≠ '/') :
    c ∉ pathOf segments := fun member =>
  (eq_or_isPlain_of_mem_pathOf plain member).elim slash fun h => by simp [h] at other

theorem sent_of_isPlain : sent segments = pathOf segments := by
  have same : ∀ s ∈ segments, '/' :: encodeBytes isPathByte (toBytes s) = '/' :: s :=
    fun s member => by rw [encodeBytes_of_isPlain (plain s member)]
  rw [sent, pathOf, List.flatMap_def, List.flatMap_def, List.map_congr_left same]

theorem slashed_append_pathOf (cs : List Char) :
    slashed (cs ++ pathOf segments) = slashed cs ++ pathOf segments := by
  have same : ∀ c ∈ pathOf segments, (if c = '\\' then '/' else c) = c := fun c member =>
    if_neg fun (back : c = '\\') => notMem_pathOf plain (c := '\\') rfl (by decide) (back ▸ member)
  rw [slashed, List.map_append, List.map_congr_left same, List.map_id']
  rfl

end

theorem splitPath_append (valid : a.Valid) (plain : ∀ s ∈ segments, ∀ c ∈ s, isPlain c = true)
    (more : segments ≠ []) : splitPath (a.folder ++ pathOf segments) =
      (splitChars '/' (slashed a.folder)).drop 1 ++ segments := by
  obtain ⟨p, ps, pieces⟩ := exists_splitChars '/' (slashed a.folder)
  rw [splitPath_of_head? (valid.head?_append (head?_pathOf more)), slashed_append_pathOf plain,
    splitChars_pathOf (slash_notMem_of_isPlain plain), pieces]
  rfl

/-- What goes over the wire for an address with segments after it, of which the last ones are no
dots. -/
theorem requestTarget_append (valid : a.Valid) {first rest : List (List Char)} (more : rest ≠ [])
    (plain : ∀ s ∈ first ++ rest, ∀ c ∈ s, isPlain c = true) (kept : ∀ s ∈ rest, isDots s = false) :
    requestTarget (String.ofList (a.text ++ pathOf (first ++ rest))) =
      String.ofList (sent ((first.foldl enter a.entered).reverse ++ rest)) := by
  have some : first ++ rest ≠ [] := List.append_ne_nil_of_right_ne_nil _ more
  have start := head?_pathOf some
  have visible : ∀ c ∈ (String.ofList (a.text ++ pathOf (first ++ rest))).toList,
      0x20 < c.toNat := by
    intro c member
    rw [String.toList_ofList, List.mem_append] at member
    rcases member with text | segment
    · exact of_decide_eq_true (List.all_eq_true.1 valid.visible c text)
    · rcases eq_or_isPlain_of_mem_pathOf plain segment with rfl | plain
      · decide
      · exact (range_of_isPlain plain).1
  have query : '?' ∉ a.folder ++ pathOf (first ++ rest) := by
    simp [valid.folder.1, notMem_pathOf plain (c := '?') rfl (by decide)]
  have fragment : '#' ∉ a.folder ++ pathOf (first ++ rest) := by
    simp [valid.folder.2, notMem_pathOf plain (c := '#') rfl (by decide)]
  rw [requestTarget, cleanUrl_of_visible visible, String.toList_ofList,
    afterAuthority_text valid start, ofChars_of_notMem query fragment]
  dsimp only
  rw [renderPath, splitPath_append valid plain some, ← List.append_assoc, resolve_append more,
    resolve_of_not_isDots more kept, List.foldl_append, List.append_nil, List.reverse_append,
    List.reverse_reverse]
  rfl

end ChangeReport.Web
