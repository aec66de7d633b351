import TransactionalMemory.Multimap
import TransactionalMemory.Proofs.TableCommit

/-! Working copies of a multimap are working copies of its table. A request reads the values under
a key at most once and then puts or removes that key, or it is a request to the table. -/
namespace TransactionalMemory.Multimap

/-- Whatever every request to a table keeps, every request to the multimap keeps of its table. -/
theorem perform_induction {K V : Type} [Ord K] [Ord V] [Std.TransOrd K] [Std.TransOrd V]
    (Holds : Table K (ValueSet V) → Prop)
    (step : ∀ table request, Holds table → Holds (table.perform request).2) (fresh : Identity)
    (multimap : Multimap K V) (request : Request K V) (holds : Holds multimap.table) :
    Holds (multimap.perform fresh request).2.table := by
  have replace (key : K) (set : ValueSet V) (multimap : Multimap K V)
      (holds : Holds multimap.table) : Holds (multimap.replace fresh key set).2.table := by
    unfold Multimap.replace
    split
    · exact step _ (.remove key) holds
    · exact step _ (.put key ⟨fresh, set⟩) holds
  have touched (key : K) : Holds (multimap.get key).2.table := step _ (.get key) holds
  cases request with
  | get key => exact touched key
  | contains key => exact step _ (.contains key) holds
  | put key value => exact replace key _ _ (touched key)
  | putAll key values => exact replace key _ _ (touched key)
  | removeValue key value =>
    simp only [perform, removeValue, Prod.map_snd, id]
    split
    · exact replace key _ _ (touched key)
    · exact touched key
  | remove key => exact step _ (.remove key) holds
  | clear => exact step _ .clear holds
  | size => exact step _ .size holds
  | isEmpty => exact step _ .isEmpty holds
  | keys limit => exact step _ (.keys limit) holds

variable {K V : Type} [Ord K] [Ord V] [Std.TransOrd K] [Std.LawfulEqOrd K]
  {marks known : Object (ValueSet V) → Prop} {clearing clearing' : Prop}
  {base latest : Table K (ValueSet V)} {multimap other : Multimap K V} {fresh : Identity}

def Request.Marked (clearing : Prop) : Request K V → Prop
  | .clear => clearing
  | _ => True

/-- An answer that stays true as long as the values that it tells of do not change. -/
def Protected : Request K V → Reply K V → Prop
  | .clear, _ => False
  | .isEmpty, .flag truth => truth = true
  | .keys _, .listing listing => listing.ended = true
  | .keys _, _ => False
  | _, _ => True

private theorem copy_get (copy : Table.CopyOf marks clearing base multimap.table) (key : K) :
    Table.CopyOf marks clearing base (multimap.get key).2.table ∧
      multimap.table.Extends (multimap.get key).2.table :=
  copy.touch key

private theorem copy_replace (copy : Table.CopyOf marks clearing base multimap.table)
    (named : ∀ set, marks ⟨fresh, set⟩) (key : K) (set : ValueSet V) :
    Table.CopyOf marks clearing base (multimap.replace fresh key set).2.table ∧
      multimap.table.Extends (multimap.replace fresh key set).2.table := by
  unfold replace
  split
  · exact copy.remove key
  · exact copy.put key (named set)

private theorem get_alike (copy : Table.CopyOf marks clearing base multimap.table)
    (copy' : Table.CopyOf known clearing' latest other.table) (still : ¬clearing)
    (alike : multimap.table.Alike other.table) {key : K}
    (fits : latest.Fits (multimap.get key).2.table) :
    (other.get key).1 = (multimap.get key).1 ∧
      (multimap.get key).2.table.Alike (other.get key).2.table := by
  obtain ⟨same, related⟩ :=
    Table.perform_alike copy copy' alike (.get key) (.inr ⟨still, trivial, fits⟩)
  have entry : (other.table.get key).1 = (multimap.table.get key).1 := by injection same
  exact ⟨by rw [get, get, Prod.map_fst, Prod.map_fst, entry], related⟩

private theorem remove_alike (copy : Table.CopyOf marks clearing base multimap.table)
    (copy' : Table.CopyOf known clearing' latest other.table) (still : ¬clearing)
    (alike : multimap.table.Alike other.table) {key : K}
    (fits : latest.Fits (multimap.remove key).2.table) :
    (other.remove key).1 = (multimap.remove key).1 ∧
      (multimap.remove key).2.table.Alike (other.remove key).2.table := by
  obtain ⟨same, related⟩ :=
    Table.perform_alike copy copy' alike (.remove key) (.inr ⟨still, trivial, fits⟩)
  have entry : (other.table.remove key).1 = (multimap.table.remove key).1 := by injection same
  exact ⟨by rw [remove, remove, Prod.map_fst, Prod.map_fst, entry], related⟩

private theorem replace_alike (copy : Table.CopyOf marks clearing base multimap.table)
    (copy' : Table.CopyOf known clearing' latest other.table) (still : ¬clearing)
    (alike : multimap.table.Alike other.table) {key : K} {set : ValueSet V}
    (fits : latest.Fits (multimap.replace fresh key set).2.table) :
    (other.replace fresh key set).1 = (multimap.replace fresh key set).1 ∧
      (multimap.replace fresh key set).2.table.Alike (other.replace fresh key set).2.table := by
  cases empty : set.isEmpty with
  | true =>
    simp only [replace, empty, if_true] at fits ⊢
    exact remove_alike copy copy' still alike fits
  | false =>
    simp only [replace, empty, Bool.false_eq_true, if_false] at fits ⊢
    obtain ⟨same, related⟩ := Table.perform_alike copy copy' alike (.put key ⟨fresh, set⟩)
      (.inr ⟨still, trivial, fits⟩)
    have entry : (other.table.put key ⟨fresh, set⟩).1 =
        (multimap.table.put key ⟨fresh, set⟩).1 := by
      injection same
    exact ⟨by rw [Prod.map_fst, Prod.map_fst, entry], related⟩

variable [Std.TransOrd V]

section
variable (copy : Table.CopyOf marks clearing base multimap.table)
  (named : ∀ set, marks ⟨fresh, set⟩)
include copy named

private theorem copy_putAll (key : K) (added : List V) :
    Table.CopyOf marks clearing base (multimap.putAll fresh key added).2.table ∧
      multimap.table.Extends (multimap.putAll fresh key added).2.table := by
  obtain ⟨touched, ahead⟩ := copy_get copy key
  obtain ⟨replaced, later⟩ := copy_replace touched named key _
  exact ⟨replaced, ahead.trans later⟩

theorem copy_perform {request : Request K V} (marked : request.Marked clearing) :
    Table.CopyOf marks clearing base (multimap.perform fresh request).2.table ∧
      multimap.table.Extends (multimap.perform fresh request).2.table := by
  cases request with
  | get key => exact copy_get copy key
  | contains key => exact copy.touch key
  | put key value => exact copy_putAll copy named key [value]
  | putAll key values => exact copy_putAll copy named key values
  | removeValue key value =>
    obtain ⟨touched, ahead⟩ := copy_get copy key
    simp only [perform, removeValue, Prod.map_snd, id]
    split
    · obtain ⟨replaced, later⟩ := copy_replace touched named key _
      exact ⟨replaced, ahead.trans later⟩
    · exact ⟨touched, ahead⟩
  | remove key => exact copy.remove key
  | clear => exact copy.clear marked
  | size => exact copy.perform .size trivial
  | isEmpty => exact copy.perform .isEmpty trivial
  | keys limit => exact copy.perform (.keys limit) trivial

end

private theorem putAll_alike (copy : Table.CopyOf marks clearing base multimap.table)
    (copy' : Table.CopyOf known clearing' latest other.table) (still : ¬clearing)
    (named : ∀ set, marks ⟨fresh, set⟩) (alike : multimap.table.Alike other.table) {key : K}
    {added : List V} (fits : latest.Fits (multimap.putAll fresh key added).2.table) :
    (other.putAll fresh key added).1 = (multimap.putAll fresh key added).1 ∧
      (multimap.putAll fresh key added).2.table.Alike
        (other.putAll fresh key added).2.table := by
  obtain ⟨touched, _⟩ := copy_get copy key
  obtain ⟨_, later⟩ := copy_replace touched named key ((multimap.get key).1.insertMany added)
  obtain ⟨same, related⟩ := get_alike copy copy' still alike (later.fits fits)
  simp only [putAll, same]
  exact replace_alike touched (copy_get copy' key).1 still related fits

theorem perform_alike (copy : Table.CopyOf marks clearing base multimap.table)
    (copy' : Table.CopyOf known clearing' latest other.table)
    (named : ∀ set, marks ⟨fresh, set⟩) (alike : multimap.table.Alike other.table)
    (request : Request K V)
    (safe : base = latest ∨ ¬clearing ∧ Protected request (multimap.perform fresh request).1 ∧
      latest.Fits (multimap.perform fresh request).2.table) :
    (other.perform fresh request).1 = (multimap.perform fresh request).1 ∧
      (multimap.perform fresh request).2.table.Alike (other.perform fresh request).2.table := by
  rcases safe with rfl | ⟨still, shown, fits⟩
  · have same : other = multimap := congrArg mk (copy.eq_of_alike copy' alike)
    rw [same]
    exact ⟨rfl, .refl _⟩
  have whole (request : Table.Request K (ValueSet V))
      (shown : Table.Protected request (multimap.table.perform request).1)
      (fits : latest.Fits (multimap.table.perform request).2) :=
    Table.perform_alike copy copy' alike request (.inr ⟨still, shown, fits⟩)
  cases request with
  | get key =>
    obtain ⟨same, related⟩ := get_alike copy copy' still alike fits
    exact ⟨congrArg Reply.values same, related⟩
  | contains key =>
    obtain ⟨same, related⟩ := whole (.contains key) trivial fits
    injection same with flag
    exact ⟨congrArg Reply.flag flag, related⟩
  | put key value =>
    obtain ⟨same, related⟩ := putAll_alike copy copy' still named alike fits
    exact ⟨congrArg Reply.values same, related⟩
  | putAll key values =>
    obtain ⟨same, related⟩ := putAll_alike copy copy' still named alike fits
    exact ⟨congrArg Reply.values same, related⟩
  | removeValue key value =>
    obtain ⟨touched, _⟩ := copy_get copy key
    simp only [perform, removeValue, Prod.map_fst, Prod.map_snd, id] at fits ⊢
    by_cases present : value ∈ (multimap.get key).1
    · simp only [if_pos present] at fits ⊢
      obtain ⟨_, later⟩ := copy_replace touched named key ((multimap.get key).1.erase value)
      obtain ⟨same, related⟩ := get_alike copy copy' still alike (later.fits fits)
      simp only [same, if_pos present, true_and]
      exact (replace_alike touched (copy_get copy' key).1 still related fits).2
    · simp only [if_neg present] at fits ⊢
      obtain ⟨same, related⟩ := get_alike copy copy' still alike fits
      simp only [same, if_neg present, true_and]
      exact related
  | remove key =>
    obtain ⟨same, related⟩ := remove_alike copy copy' still alike fits
    exact ⟨congrArg Reply.values same, related⟩
  | clear => exact shown.elim
  | size =>
    obtain ⟨same, related⟩ := whole .size trivial fits
    injection same with count
    exact ⟨congrArg Reply.count count, related⟩
  | isEmpty =>
    obtain ⟨same, related⟩ := whole .isEmpty shown fits
    injection same with flag
    exact ⟨congrArg Reply.flag flag, related⟩
  | keys limit =>
    obtain ⟨same, related⟩ := whole (.keys limit) shown fits
    injection same with listing
    exact ⟨congrArg Reply.listing listing, related⟩

end TransactionalMemory.Multimap
