import Mathlib.Tactic.IntervalCases
import TransactionalMemory.Toml.Document

/-! How TOML lets keys and integers be written, and that each spelling is read as what it spells.
Keys may be bare or quoted, with escapes. Integers may have a sign, a radix and underscores. -/
namespace TransactionalMemory.Toml

/-- The first character, if there is one, is not of the kind. -/
def Past (kind : Char → Bool) (rest : List Char) : Prop :=
  ∀ c ∈ rest.head?, kind c = false

section
variable {kind : Char → Bool} {front rest : List Char}

private theorem takeWhile_past (all : ∀ c ∈ front, kind c = true) (past : Past kind rest) :
    (front ++ rest).takeWhile kind = front := by
  rw [List.takeWhile_append_of_pos all]
  cases rest with
  | nil => simp
  | cons c rest => simp [past c rfl]

theorem dropWhile_past (all : ∀ c ∈ front, kind c = true) (past : Past kind rest) :
    (front ++ rest).dropWhile kind = rest := by
  rw [List.dropWhile_append_of_pos all]
  cases rest with
  | nil => rfl
  | cons c rest => simp [past c rfl]

end

/-- The characters that a backslash makes of the one that follows it. -/
def escapes : List (Char × Char) :=
  [('b', '\x08'), ('t', '\t'), ('n', '\n'), ('f', '\x0c'), ('r', '\r'), ('"', '"'), ('\\', '\\')]

/-- How the content of a string in double quotes may be written. -/
inductive BasicSpells : (content written : List Char) → Prop where
  | nil : BasicSpells [] []
  | plain {c : Char} {content written : List Char} (printable : isPrintable c = true)
      (quote : c ≠ '"') (slash : c ≠ '\\') (more : BasicSpells content written) :
      BasicSpells (c :: content) (c :: written)
  | escaped {mark c : Char} {content written : List Char} (known : (mark, c) ∈ escapes)
      (more : BasicSpells content written) :
      BasicSpells (c :: content) ('\\' :: mark :: written)
  | coded {mark c : Char} {code content written : List Char}
      (width : (mark, code.length) ∈ [('u', 4), ('U', 8)])
      (hex : ∀ digit ∈ code, (hexDigit? digit).isSome) (scalar : numeral 16 code = c.toNat)
      (more : BasicSpells content written) :
      BasicSpells (c :: content) ('\\' :: mark :: (code ++ written))

inductive KeySpells : (name : String) → (written : List Char) → Prop where
  | bare {name : List Char} (some : name ≠ []) (all : ∀ c ∈ name, isBareKey c = true) :
      KeySpells (String.ofList name) name
  | basic {name written : List Char} (spells : BasicSpells name written) :
      KeySpells (String.ofList name) ('"' :: (written ++ ['"']))
  | literal {name : List Char} (all : ∀ c ∈ name, isPrintable c = true ∧ c ≠ '\'') :
      KeySpells (String.ofList name) ('\'' :: (name ++ ['\'']))

private theorem escape_escapes {mark c : Char} (known : (mark, c) ∈ escapes) (rest : List Char) :
    escape (mark :: rest) = .ok (c, rest) := by
  simp only [escapes, List.mem_cons, Prod.mk.injEq, List.not_mem_nil, or_false] at known
  rcases known with ⟨rfl, rfl⟩ | ⟨rfl, rfl⟩ | ⟨rfl, rfl⟩ | ⟨rfl, rfl⟩ | ⟨rfl, rfl⟩ | ⟨rfl, rfl⟩ |
    ⟨rfl, rfl⟩ <;> rfl

private theorem foldlM_hexDigit {code : List Char} (hex : ∀ digit ∈ code, (hexDigit? digit).isSome)
    (start : Nat) : code.foldlM (fun value c => return value * 16 + (← hexDigit? c)) start =
      some (code.foldl (fun value c => value * 16 + (hexDigit? c).getD 0) start) := by
  induction code generalizing start with
  | nil => rfl
  | cons digit code ih =>
    obtain ⟨first, others⟩ := List.forall_mem_cons.mp hex
    obtain ⟨amount, found⟩ := Option.isSome_iff_exists.mp first
    have more := ih others (start * 16 + amount)
    simpa [found] using more

private theorem scalar?_eq {code : List Char} {c : Char}
    (hex : ∀ digit ∈ code, (hexDigit? digit).isSome) (scalar : numeral 16 code = c.toNat) :
    scalar? code = some c := by
  have folded := foldlM_hexDigit hex 0
  rw [show code.foldl _ 0 = c.toNat from scalar] at folded
  have valid : c.toNat.isValidChar := c.valid
  unfold scalar?
  rw [folded]
  simp [valid]

private theorem escape_coded {mark c : Char} {code : List Char}
    (width : (mark, code.length) ∈ [('u', 4), ('U', 8)])
    (hex : ∀ digit ∈ code, (hexDigit? digit).isSome) (scalar : numeral 16 code = c.toNat)
    (rest : List Char) : escape (mark :: (code ++ rest)) = .ok (c, rest) := by
  have found := scalar?_eq hex scalar
  simp only [List.mem_cons, Prod.mk.injEq, List.not_mem_nil, or_false] at width
  rcases width with ⟨rfl, length⟩ | ⟨rfl, length⟩ <;>
    simp [escape, ← length, found]

/-- The induction is over the spelling; its length bounds the fuel that the reader needs. -/
private theorem basic_spells {content written : List Char} (spells : BasicSpells content written)
    {fuel : Nat} (enough : written.length ≤ fuel) (rest : List Char) :
    basic fuel (written ++ '"' :: rest) = .ok (content, rest) := by
  induction spells generalizing fuel with
  | nil => cases fuel <;> rfl
  | plain printable quote slash more ih =>
    obtain _ | fuel := fuel
    · simp at enough
    · have after := ih (Nat.le_of_succ_le_succ enough)
      simp [basic, printable, after, push, Except.map]
  | escaped known more ih =>
    obtain _ | fuel := fuel
    · simp at enough
    · simp only [List.length_cons] at enough
      have after := ih (show _ ≤ fuel by omega)
      simp [basic, escape_escapes known, after, push, bind, Except.bind, pure, Except.pure]
  | @coded mark c code content written width hex scalar more ih =>
    obtain _ | fuel := fuel
    · simp at enough
    · simp only [List.length_cons, List.length_append] at enough
      have after := ih (show _ ≤ fuel by omega)
      simp [basic, escape_coded width hex scalar, after, push, bind, Except.bind, pure, Except.pure]

private theorem literal_spells {content : List Char}
    (all : ∀ c ∈ content, isPrintable c = true ∧ c ≠ '\'') (rest : List Char) :
    literal (content ++ '\'' :: rest) = .ok (content, rest) := by
  induction content with
  | nil => rfl
  | cons c content ih =>
    obtain ⟨⟨printable, quote⟩, others⟩ := List.forall_mem_cons.mp all
    simp [literal, quote, printable, ih others, push, Except.map]

def startsKey (c : Char) : Bool :=
  isBareKey c || c = '"' || c = '\''

theorem KeySpells.starts {name : String} {written : List Char} (spells : KeySpells name written) :
    ∃ c tail, written = c :: tail ∧ startsKey c = true := by
  cases spells with
  | bare some all =>
    obtain ⟨c, tail, rfl⟩ := List.exists_cons_of_ne_nil some
    exact ⟨c, tail, rfl, by simp [startsKey, all c (by simp)]⟩
  | basic spells => exact ⟨_, _, rfl, rfl⟩
  | literal all => exact ⟨_, _, rfl, rfl⟩

theorem simpleKey_spells {name : String} {written rest : List Char}
    (spells : KeySpells name written) (past : Past isBareKey rest) :
    simpleKey (written ++ rest) = .ok (name, rest) := by
  cases spells with
  | @bare name some all =>
    obtain ⟨c, tail, rfl⟩ := List.exists_cons_of_ne_nil some
    have bare := all c (by simp)
    have double : c ≠ '"' := by rintro rfl; cases bare
    have single : c ≠ '\'' := by rintro rfl; cases bare
    have taken := takeWhile_past all past
    have dropped := dropWhile_past all past
    simp only [List.cons_append] at taken dropped ⊢
    simp [simpleKey, double, single, taken, dropped]
  | basic spells =>
    simp [simpleKey, basic_spells spells, Except.map]
  | literal all => simp [simpleKey, literal_spells all, Except.map]

/-- How more digits may follow a digit. -/
inductive MoreSpells (isDigit : Char → Bool) : (digits written : List Char) → Prop where
  | nil : MoreSpells isDigit [] []
  | digit {c : Char} {digits written : List Char} (is : isDigit c = true)
      (more : MoreSpells isDigit digits written) : MoreSpells isDigit (c :: digits) (c :: written)
  | scored {c : Char} {digits written : List Char} (is : isDigit c = true)
      (more : MoreSpells isDigit digits written) :
      MoreSpells isDigit (c :: digits) ('_' :: c :: written)

/-- A decimal number without a sign: zero alone, or no zero at the front. -/
inductive WholeSpells : (digits written : List Char) → Prop where
  | zero : WholeSpells ['0'] ['0']
  | nonzero {c : Char} {digits written : List Char} (is : c.isDigit = true) (front : c ≠ '0')
      (more : MoreSpells Char.isDigit digits written) : WholeSpells (c :: digits) (c :: written)

inductive SignSpells : (negative : Bool) → (written : List Char) → Prop where
  | absent : SignSpells false []
  | plus : SignSpells false ['+']
  | minus : SignSpells true ['-']

def signed (negative : Bool) (size : Nat) : Int :=
  if negative then -size else size

def isRadixDigit (base : Nat) (c : Char) : Bool :=
  (hexDigit? c).any (· < base)

/-- How a signed 64-bit word may be written. -/
inductive IntegerSpells : (value : Int) → (written : List Char) → Prop where
  | decimal {negative : Bool} {sign digits written : List Char} (signs : SignSpells negative sign)
      (spells : WholeSpells digits written)
      (low : Int64.minValue.toInt ≤ signed negative (numeral 10 digits))
      (high : signed negative (numeral 10 digits) ≤ Int64.maxValue.toInt) :
      IntegerSpells (signed negative (numeral 10 digits)) (sign ++ written)
  | radix {mark c : Char} {base : Nat} {digits written : List Char}
      (known : (mark, base) ∈ [('x', 16), ('o', 8), ('b', 2)]) (is : isRadixDigit base c = true)
      (more : MoreSpells (isRadixDigit base) digits written)
      (high : numeral base (c :: digits) ≤ Int64.maxValue.toInt) :
      IntegerSpells (numeral base (c :: digits)) ('0' :: mark :: c :: written)

/-- What may stand after an integer on its line. -/
def endsInteger (c : Char) : Bool :=
  c = ' ' || c = '\t' || c = '#' || c = '\n' || c = '\r'

/-- Nothing but what ends an integer is at the front. -/
def Ended (rest : List Char) : Prop :=
  Past (fun c => !endsInteger c) rest

private theorem Ended.head {c : Char} {rest : List Char} (ended : Ended (c :: rest)) :
    endsInteger c = true := by
  simpa using ended c rfl

private theorem Ended.past {rest : List Char} (ended : Ended rest) {kind : Char → Bool}
    (none : [' ', '\t', '#', '\n', '\r'].all (!kind ·) = true) : Past kind rest := by
  intro c member
  have ends : endsInteger c = true := by simpa using ended c member
  have outside := List.all_eq_true.mp none c (by simpa [endsInteger, or_assoc] using ends)
  simpa using outside

private theorem moreDigits_spells {isDigit : Char → Bool} {digits written rest : List Char}
    (score : isDigit '_' = false) (spells : MoreSpells isDigit digits written)
    (past : Past (fun c => isDigit c || c = '_') rest) :
    moreDigits isDigit (written ++ rest) = .ok (digits, rest) := by
  induction spells with
  | nil =>
    cases rest with
    | nil => rfl
    | cons c rest =>
      have other := past c rfl
      simp only [Bool.or_eq_false_iff, decide_eq_false_iff_not] at other
      simp [moreDigits, other]
  | @digit c digits written is more ih =>
    have front : c ≠ '_' := by
      rintro rfl
      simp [score] at is
    simp [moreDigits, front, is, ih, push, Except.map]
  | scored is more ih => simp [moreDigits, is, ih, push, Except.map]

private theorem digits_spells {isDigit : Char → Bool} {c : Char} {found written rest : List Char}
    (score : isDigit '_' = false) (is : isDigit c = true)
    (spells : MoreSpells isDigit found written)
    (past : Past (fun c => isDigit c || c = '_') rest) :
    digits isDigit (c :: (written ++ rest)) = .ok (c :: found, rest) := by
  simp [digits, is, moreDigits_spells score spells past, push, Except.map]

private theorem decimal_spells {digits written rest : List Char}
    (spells : WholeSpells digits written) (past : Past (fun c => c.isDigit || c = '_') rest) :
    decimal (written ++ rest) = .ok (digits, rest) := by
  cases spells with
  | zero => rfl
  | nonzero is front more =>
    have read := digits_spells rfl is more past
    simpa [decimal, front] using read

private theorem MoreSpells.mem_written {isDigit : Char → Bool} {digits written : List Char}
    (spells : MoreSpells isDigit digits written) {c : Char} (member : c ∈ written) :
    isDigit c = true ∨ c = '_' := by
  induction spells with
  | nil => cases member
  | digit is more ih =>
    rcases List.mem_cons.mp member with rfl | member
    · exact .inl is
    · exact ih member
  | scored is more ih =>
    rcases List.mem_cons.mp member with rfl | member
    · exact .inr rfl
    rcases List.mem_cons.mp member with rfl | member
    · exact .inl is
    · exact ih member

private theorem WholeSpells.mem_written {digits written : List Char}
    (spells : WholeSpells digits written) {c : Char} (member : c ∈ written) :
    c.isDigit = true ∨ c = '_' := by
  cases spells with
  | zero =>
    obtain rfl := List.mem_singleton.mp member
    exact .inl rfl
  | nonzero is front more =>
    rcases List.mem_cons.mp member with rfl | member
    · exact .inl is
    · exact more.mem_written member

/-- As many digits and then a mark, as a point in time begins. -/
def Stamped (count : Nat) (mark : Char) (rest : List Char) : Prop :=
  (∀ index < count, ∃ c, rest[index]? = some c ∧ c.isDigit = true) ∧ rest[count]? = some mark

private theorem stamped_of_startsDate {rest : List Char} (starts : startsDate rest = true) :
    Stamped 4 '-' rest := by
  unfold startsDate at starts
  split at starts
  · next a b c d tail =>
    simp only [Bool.and_eq_true] at starts
    obtain ⟨⟨⟨first, second⟩, third⟩, fourth⟩ := starts
    refine ⟨fun index bound => ?_, rfl⟩
    match index, bound with
    | 0, _ => exact ⟨a, rfl, first⟩
    | 1, _ => exact ⟨b, rfl, second⟩
    | 2, _ => exact ⟨c, rfl, third⟩
    | 3, _ => exact ⟨d, rfl, fourth⟩
  · cases starts

private theorem stamped_of_startsTime {rest : List Char} (starts : startsTime rest = true) :
    Stamped 2 ':' rest := by
  unfold startsTime at starts
  split at starts
  · next a b tail =>
    simp only [Bool.and_eq_true] at starts
    refine ⟨fun index bound => ?_, rfl⟩
    match index, bound with
    | 0, _ => exact ⟨a, rfl, starts.1⟩
    | 1, _ => exact ⟨b, rfl, starts.2⟩
  · cases starts

private theorem not_stamped_of_getElem? {count index : Nat} {mark c : Char} {rest : List Char}
    (before : index < count) (found : rest[index]? = some c) (other : c.isDigit = false) :
    ¬Stamped count mark rest := by
  rintro ⟨all, _⟩
  obtain ⟨digit, same, is⟩ := all index before
  obtain rfl := Option.some.inj (found.symm.trans same)
  simp [other] at is

/-- Digits that end before the mark are no stamp, whatever comes after them. -/
private theorem not_stamped_append {count : Nat} {mark : Char} {front rest : List Char}
    (clear : mark ∉ front) (past : Past (fun c => c.isDigit || c = mark) rest) :
    ¬Stamped count mark (front ++ rest) := by
  rintro ⟨all, marked⟩
  have outside (c : Char) (found : rest.head? = some c) : c.isDigit = false ∧ c ≠ mark := by
    simpa using past c found
  have behind : (front ++ rest)[front.length]? = rest.head? := by
    rw [List.getElem?_append_right (Nat.le_refl _), Nat.sub_self, ← List.head?_eq_getElem?]
  rcases Nat.lt_trichotomy count front.length with within | same | beyond
  · rw [List.getElem?_append_left within] at marked
    exact clear (List.mem_of_getElem? marked)
  · rw [same, behind] at marked
    exact (outside mark marked).2 rfl
  · obtain ⟨c, found, is⟩ := all front.length beyond
    rw [behind] at found
    simp [(outside c found).1] at is

section
variable {rest : List Char}

private theorem number_eq_decimalNumber (date : ¬Stamped 4 '-' rest) (time : ¬Stamped 2 ':' rest)
    (plain : ∀ mark inner, rest = '0' :: mark :: inner → mark ∉ ['x', 'o', 'b']) :
    number rest = decimalNumber rest := by
  unfold number
  rw [if_neg fun starts => date (stamped_of_startsDate starts),
    if_neg fun starts => time (stamped_of_startsTime starts)]
  split
  · next inner => exact absurd (by simp) (plain 'x' inner rfl)
  · next inner => exact absurd (by simp) (plain 'o' inner rfl)
  · next inner => exact absurd (by simp) (plain 'b' inner rfl)
  · rfl

private theorem number_eq_radix {mark : Char} {base : Nat}
    (known : (mark, base) ∈ [('x', 16), ('o', 8), ('b', 2)]) (inner : List Char) :
    number ('0' :: mark :: inner) = radix base ('0' :: mark :: inner) inner := by
  have letter : mark.isDigit = false := by
    simp only [List.mem_cons, Prod.mk.injEq, List.not_mem_nil, or_false] at known
    rcases known with ⟨rfl, _⟩ | ⟨rfl, _⟩ | ⟨rfl, _⟩ <;> rfl
  have unstamped (count : Nat) (more : 1 < count) (sign : Char) :
      ¬Stamped count sign ('0' :: mark :: inner) :=
    not_stamped_of_getElem? more rfl letter
  unfold number
  rw [if_neg fun starts => unstamped 4 (by decide) '-' (stamped_of_startsDate starts),
    if_neg fun starts => unstamped 2 (by decide) ':' (stamped_of_startsTime starts)]
  simp only [List.mem_cons, Prod.mk.injEq, List.not_mem_nil, or_false] at known
  rcases known with ⟨rfl, rfl⟩ | ⟨rfl, rfl⟩ | ⟨rfl, rfl⟩ <;> rfl

end

private theorem wordLiteral_eq {value : Int} (low : Int64.minValue.toInt ≤ value)
    (high : value ≤ Int64.maxValue.toInt) (rest : List Char) :
    wordLiteral rest value = .ok (.integer (.ofInt value)) :=
  if_pos ⟨low, high⟩

private theorem minValue_le (value : Nat) : Int64.minValue.toInt ≤ value := by
  have least : Int64.minValue.toInt ≤ 0 := by decide
  omega

private theorem WholeSpells.starts {digits written : List Char}
    (spells : WholeSpells digits written) : ∃ c tail, written = c :: tail ∧ c.isDigit = true := by
  cases spells with
  | zero => exact ⟨_, _, rfl, rfl⟩
  | nonzero is front more => exact ⟨_, _, rfl, is⟩

private theorem sign_spells {negative : Bool} {written : List Char} {c : Char}
    (signs : SignSpells negative written) (is : c.isDigit = true) (rest : List Char) :
    sign (written ++ c :: rest) = (negative, c :: rest) := by
  cases signs with
  | absent =>
    have plus : c ≠ '+' := by rintro rfl; cases is
    have minus : c ≠ '-' := by rintro rfl; cases is
    simp [sign, plus, minus]
  | plus => rfl
  | minus => rfl

private theorem decimalNumber_spells {negative : Bool} {written digits whole rest : List Char}
    (signs : SignSpells negative written) (spells : WholeSpells digits whole)
    (low : Int64.minValue.toInt ≤ signed negative (numeral 10 digits))
    (high : signed negative (numeral 10 digits) ≤ Int64.maxValue.toInt) (ended : Ended rest) :
    decimalNumber (written ++ (whole ++ rest)) =
      .ok (.integer (.ofInt (signed negative (numeral 10 digits))), rest) := by
  have read := decimal_spells spells (ended.past (by decide))
  have accepted := wordLiteral_eq low high (written ++ (whole ++ rest))
  obtain ⟨c, tail, rfl, is⟩ := spells.starts
  have split := sign_spells signs is (tail ++ rest)
  have infinite : c ≠ 'i' := by rintro rfl; cases is
  have unnumbered : c ≠ 'n' := by rintro rfl; cases is
  simp only [List.cons_append] at read accepted split ⊢
  unfold decimalNumber
  rw [split]
  simp only [read, bind, Except.bind]
  split
  · next same => exact absurd (List.cons.inj same).1 infinite
  · next same => exact absurd (List.cons.inj same).1 unnumbered
  · split
    · next point => cases ended.head
    · next exponent => cases ended.head
    · next exponent => cases ended.head
    · rw [show (if negative = true then -(numeral 10 digits : Int) else numeral 10 digits) =
        signed negative (numeral 10 digits) from rfl, accepted]
      rfl

private theorem number_decimal {negative : Bool} {written digits whole rest : List Char}
    (signs : SignSpells negative written) (spells : WholeSpells digits whole)
    (ended : Ended rest) : number (written ++ (whole ++ rest)) =
      decimalNumber (written ++ (whole ++ rest)) := by
  have letters (mark : Char) (other : mark.isDigit = false) (score : mark ≠ '_') :
      mark ∉ whole := by
    intro member
    rcases spells.mem_written member with is | same
    · simp [other] at is
    · exact score same
  have after (mark : Char)
      (none : [' ', '\t', '#', '\n', '\r'].all (fun c => !(c.isDigit || c = mark)) = true) :
      Past (fun c => c.isDigit || c = mark) rest :=
    ended.past none
  cases signs with
  | absent =>
    rw [List.nil_append]
    refine number_eq_decimalNumber
      (not_stamped_append (letters '-' rfl (by decide)) (after '-' rfl))
      (not_stamped_append (letters ':' rfl (by decide)) (after ':' rfl)) ?_
    intro mark inner same
    cases spells with
    | zero =>
      obtain rfl : rest = mark :: inner := (List.cons.inj same).2
      have ends := ended.head
      intro member
      simp only [List.mem_cons, List.not_mem_nil, or_false] at member
      rcases member with rfl | rfl | rfl <;> cases ends
    | nonzero is front more => exact absurd (List.cons.inj same).1 front
  | plus =>
    exact number_eq_decimalNumber (not_stamped_of_getElem? (Nat.succ_pos _) rfl rfl)
      (not_stamped_of_getElem? (Nat.succ_pos _) rfl rfl) fun mark inner same => by cases same
  | minus =>
    exact number_eq_decimalNumber (not_stamped_of_getElem? (Nat.succ_pos _) rfl rfl)
      (not_stamped_of_getElem? (Nat.succ_pos _) rfl rfl) fun mark inner same => by cases same

private theorem number_spells {value : Int} {written rest : List Char}
    (spells : IntegerSpells value written) (ended : Ended rest) :
    number (written ++ rest) = .ok (.integer (.ofInt value), rest) := by
  cases spells with
  | decimal signs whole low high =>
    rw [List.append_assoc, number_decimal signs whole ended]
    exact decimalNumber_spells signs whole low high ended
  | @radix mark c base digits written known is more high =>
    have past : Past (fun c => isRadixDigit base c || c = '_') rest :=
      ended.past rfl
    have read := digits_spells rfl is more past
    rw [List.cons_append, List.cons_append, List.cons_append, number_eq_radix known, radix]
    rw [show (fun c => (hexDigit? c).any (· < base)) = isRadixDigit base from rfl, read]
    simp only [bind, Except.bind, wordLiteral_eq (minValue_le _) high]
    rfl

theorem IntegerSpells.starts {value : Int} {written : List Char}
    (spells : IntegerSpells value written) :
    ∃ c tail, written = c :: tail ∧ startsNumber c = true := by
  cases spells with
  | decimal signs whole low high =>
    obtain ⟨c, tail, rfl, is⟩ := whole.starts
    cases signs with
    | absent => exact ⟨c, tail, rfl, by simp [startsNumber, is]⟩
    | plus => exact ⟨_, _, rfl, rfl⟩
    | minus => exact ⟨_, _, rfl, rfl⟩
  | radix known is more high => exact ⟨_, _, rfl, rfl⟩

theorem value_spells {found : Int} {written rest : List Char}
    (spells : IntegerSpells found written) (ended : Ended rest) (fuel depth : Nat) :
    value (fuel + 1) depth (written ++ rest) = .ok (.integer (.ofInt found), rest) := by
  have read := number_spells spells ended
  obtain ⟨c, tail, rfl, starts⟩ := spells.starts
  have others : c ≠ '[' ∧ c ≠ '\x7b' ∧ c ≠ '"' ∧ c ≠ '\'' := by
    refine ⟨?_, ?_, ?_, ?_⟩ <;> rintro rfl <;> cases starts
  obtain ⟨bracket, brace, double, single⟩ := others
  rw [List.cons_append] at read ⊢
  simp [value, starts, read]

private theorem numeral_ten {digits : List Char} (all : ∀ c ∈ digits, c.isDigit = true) :
    numeral 10 digits = Nat.ofDigitChars 10 digits 0 := by
  have fold (start : Nat) : digits.foldl (fun value c => value * 10 + (hexDigit? c).getD 0) start =
      Nat.ofDigitChars 10 digits start := by
    induction digits generalizing start with
    | nil => rfl
    | cons c digits ih =>
      obtain ⟨is, others⟩ := List.forall_mem_cons.mp all
      rw [List.foldl_cons, ih others, Nat.ofDigitChars_cons]
      simp [hexDigit?, is, Nat.mul_comm]
  exact fold 0

private theorem numeral_toDigits (value : Nat) : numeral 10 (Nat.toDigits 10 value) = value := by
  rw [numeral_ten fun c member => Nat.isDigit_of_mem_toDigits (by decide) (by decide) member]
  exact Nat.ofDigitChars_ten_toDigits

private theorem toDigits_front (value : Nat) (positive : 0 < value) :
    ∃ c tail, Nat.toDigits 10 value = c :: tail ∧ c ≠ '0' := by
  induction value using Nat.strongRecOn with
  | ind value ih =>
    rw [Nat.toDigits_eq_if (by decide)]
    split
    · next small =>
      refine ⟨_, [], rfl, ?_⟩
      interval_cases value <;> decide
    · next large =>
      obtain ⟨c, tail, same, front⟩ := ih (value / 10) (by omega) (by omega)
      exact ⟨c, _, by rw [same, List.cons_append], front⟩

private theorem MoreSpells.plain {isDigit : Char → Bool} {digits : List Char}
    (all : ∀ c ∈ digits, isDigit c = true) : MoreSpells isDigit digits digits := by
  induction digits with
  | nil => exact .nil
  | cons c digits ih =>
    obtain ⟨is, others⟩ := List.forall_mem_cons.mp all
    exact .digit is (ih others)

private theorem wholeSpells_toDigits (value : Nat) :
    WholeSpells (Nat.toDigits 10 value) (Nat.toDigits 10 value) := by
  obtain rfl | positive := Nat.eq_zero_or_pos value
  · exact .zero
  have all : ∀ c ∈ Nat.toDigits 10 value, c.isDigit = true := fun c member =>
    Nat.isDigit_of_mem_toDigits (by decide) (by decide) member
  obtain ⟨c, tail, same, front⟩ := toDigits_front value positive
  rw [same] at all ⊢
  obtain ⟨is, others⟩ := List.forall_mem_cons.mp all
  exact .nonzero is front (.plain others)

theorem integerSpells_toString (number : Int64) :
    IntegerSpells number.toInt (toString number).toList := by
  have low := number.minValue_le_toInt
  have high := number.toInt_le
  have printed : toString number = toString number.toInt := rfl
  rw [printed]
  generalize number.toInt = value at low high
  obtain size | below := value
  · have spelled : signed false (numeral 10 (Nat.toDigits 10 size)) = size := by
      simp [signed, numeral_toDigits]
    have spells := IntegerSpells.decimal .absent (wholeSpells_toDigits size)
      (by rwa [spelled]) (by rwa [spelled])
    rwa [spelled, List.nil_append, ← Nat.toList_repr] at spells
  · have spelled : signed true (numeral 10 (Nat.toDigits 10 (below + 1))) = .negSucc below := by
      simp [signed, numeral_toDigits, Int.negSucc_eq]
    have spells := IntegerSpells.decimal .minus (wholeSpells_toDigits (below + 1))
      (by rw [spelled]; exact low) (by rw [spelled]; exact high)
    rw [spelled] at spells
    have shown : (toString (Int.negSucc below)).toList = '-' :: Nat.toDigits 10 (below + 1) := by
      change ("-" ++ (below + 1).repr).toList = _
      rw [String.toList_append, Nat.toList_repr]
      rfl
    rw [shown]
    exact spells

end TransactionalMemory.Toml
