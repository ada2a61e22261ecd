import Greyd.Greydb
import Greyd.Support.LikePatterns

/-!
# Permitted domains over the drivers (bdb.c, sqlite.c, mysql.c, postgresql.c)

Whether `Mod_db_get` returns GREYDB_FOUND for a DB_KEY_DOM_PART key. The SQL drivers match the
address against each stored domain behind a percent sign. In the statements of two of them the
quote and the percent sign pass through asprintf(3), which copies what is no conversion.
-/
namespace Greyd

open LikePatterns (Rules EndsIn like Plain like_any_plain)

def storedDomains (b : Bdb) : List CStr :=
  b.domains.keys.filterMap fun key => match key with
    | .dom domain => some domain
    | _ => none

/-- The rows of `SELECT … FROM domains WHERE address LIKE '%' || domain`; `none`: the statement
fails. -/
def selectDomains (rules : Rules) (domains : List CStr) (address : CStr) : Option (List CStr) :=
  if domains.any fun domain => like rules ('%' :: domain) address = none then none
  else some (domains.filter fun domain => like rules ('%' :: domain) address = some true)

/-- No escape character; letters compare without case. -/
def Sqlite.likeRules : Rules := ⟨Char.toLower, none⟩

/-- The latin1 columns compare letters without case. -/
def Mysql.likeRules : Rules := ⟨Char.toLower, some (.char '\\')⟩

def Postgresql.likeRules : Rules := ⟨id, some .badEscape⟩

/-- One step of the statement. -/
def Sqlite.modDbGetDomPart (b : Bdb) (address : CStr) : Bool :=
  (selectDomains Sqlite.likeRules (storedDomains b) address).any (· ≠ [])

def Mysql.modDbGetDomPart (b : Bdb) (address : CStr) : Bool :=
  (selectDomains Mysql.likeRules (storedDomains b) address).any (·.length = 1)

def Postgresql.modDbGetDomPart (b : Bdb) (address : CStr) : Bool :=
  (selectDomains Postgresql.likeRules (storedDomains b) address).any (·.length = 1)

/-! ## What the drivers say -/

/-- The domain is a suffix of the address, up to case. -/
abbrev DomainOf (address domain : CStr) : Prop := EndsIn Char.toLower address domain

/-- Every driver finds a domain exactly when a stored one is a suffix of the address. -/
def DriversAgree (b : Bdb) (address : CStr) : Prop :=
  ∀ found ∈ [checkPartialDom b address, Sqlite.modDbGetDomPart b address,
      Mysql.modDbGetDomPart b address, Postgresql.modDbGetDomPart b address],
    (found = true ↔ ∃ domain ∈ storedDomains b, DomainOf address domain)

/-- Read as a pattern, the domain matches the address no otherwise than as it is written. -/
def LiteralAt (address domain : CStr) : Prop :=
  ∀ rules ∈ [Sqlite.likeRules, Mysql.likeRules, Postgresql.likeRules],
    like rules ('%' :: domain) address = some (decide (EndsIn rules.fold address domain))

/-- A domain without special characters is never read otherwise. -/
theorem literalAt_of_plain {domain : CStr} (h : Plain domain) (address : CStr) :
    LiteralAt address domain := fun _ _ => like_any_plain h address

variable {b : Bdb} {address : CStr} {domains : List CStr}

theorem selectDomains_literal {rules : Rules} (h : ∀ domain ∈ domains,
      like rules ('%' :: domain) address = some (decide (EndsIn rules.fold address domain))) :
    selectDomains rules domains address =
      some (domains.filter fun domain => decide (EndsIn rules.fold address domain)) := by
  have hnone : ¬ (domains.any fun domain => like rules ('%' :: domain) address = none) = true := by
    rw [List.any_eq_true]
    rintro ⟨domain, hmem, hfails⟩
    rw [h domain hmem] at hfails
    cases hfails
  rw [selectDomains, if_neg hnone]
  refine congrArg some (List.filter_congr fun domain hmem => ?_)
  rw [h domain hmem]
  simp

theorem mem_storedDomains {domain : CStr} : domain ∈ storedDomains b ↔ .dom domain ∈ b.domains.keys := by
  simp only [storedDomains, List.mem_filterMap]
  constructor
  · rintro ⟨key, hkey, hdomain⟩
    cases key with
    | dom d =>
      cases hdomain
      exact hkey
    | ip | mail | tuple => cases hdomain
  · intro hkey
    exact ⟨.dom domain, hkey, rfl⟩

theorem checkPartialDom_iff :
    checkPartialDom b address = true ↔ ∃ domain ∈ storedDomains b, DomainOf address domain := by
  rw [checkPartialDom, List.any_eq_true]
  constructor
  · rintro ⟨key, hkey, hmatch⟩
    cases key with
    | dom domain =>
      rw [Bool.and_eq_true, decide_eq_true_eq, equalNocase, decide_eq_true_eq] at hmatch
      exact ⟨domain, mem_storedDomains.mpr hkey, hmatch⟩
    | ip | mail | tuple => cases hmatch
  · rintro ⟨domain, hmem, hlength, hsame⟩
    refine ⟨.dom domain, mem_storedDomains.mp hmem, ?_⟩
    rw [Bool.and_eq_true, decide_eq_true_eq, equalNocase, decide_eq_true_eq]
    exact ⟨hlength, hsame⟩

theorem endsIn_id {domain : CStr} : EndsIn id address domain ↔ domain <:+ address := by
  rw [EndsIn, List.map_id, List.map_id]
  constructor
  · rintro ⟨-, hdrop⟩
    exact hdrop ▸ List.drop_suffix _ _
  · intro hsuffix
    exact ⟨hsuffix.length_le, (List.suffix_iff_eq_drop.mp hsuffix).symm⟩

theorem domainOf_of_suffix {domain : CStr} (h : domain <:+ address) : DomainOf address domain := by
  obtain ⟨hlength, hdrop⟩ := endsIn_id.mpr h
  rw [List.map_id, List.map_id] at hdrop
  exact ⟨hlength, by rw [hdrop]⟩

/-- Where the stored domains are read literally, the drivers agree exactly when one of them at
most is a suffix of the address, in the same case. -/
theorem drivers_agree_iff (hliteral : ∀ domain ∈ storedDomains b, LiteralAt address domain) :
    DriversAgree b address ↔
      ((storedDomains b).filter fun domain => decide (DomainOf address domain)).length ≤ 1 ∧
        ∀ domain ∈ storedDomains b, DomainOf address domain → domain <:+ address := by
  have hsqlite : Sqlite.modDbGetDomPart b address = true ↔
      ∃ domain ∈ storedDomains b, DomainOf address domain := by
    rw [Sqlite.modDbGetDomPart, selectDomains_literal fun domain hmem =>
      hliteral domain hmem Sqlite.likeRules (by simp)]
    show decide ((storedDomains b).filter (fun domain => decide (DomainOf address domain)) ≠ []) =
      true ↔ _
    simp [List.filter_eq_nil_iff]
  have hmysql : Mysql.modDbGetDomPart b address = true ↔
      ((storedDomains b).filter fun domain => decide (DomainOf address domain)).length = 1 := by
    rw [Mysql.modDbGetDomPart, selectDomains_literal fun domain hmem =>
      hliteral domain hmem Mysql.likeRules (by simp)]
    exact decide_eq_true_iff
  have hpostgresql : Postgresql.modDbGetDomPart b address = true ↔
      ((storedDomains b).filter fun domain => decide (domain <:+ address)).length = 1 := by
    rw [Postgresql.modDbGetDomPart, selectDomains_literal fun domain hmem =>
      hliteral domain hmem Postgresql.likeRules (by simp)]
    simp [Postgresql.likeRules, endsIn_id]
  have hagree : DriversAgree b address ↔
      (Mysql.modDbGetDomPart b address = true ↔
        ∃ domain ∈ storedDomains b, DomainOf address domain) ∧
      (Postgresql.modDbGetDomPart b address = true ↔
        ∃ domain ∈ storedDomains b, DomainOf address domain) := by
    simp only [DriversAgree, List.mem_cons, List.not_mem_nil, or_false, forall_eq_or_imp, forall_eq,
      checkPartialDom_iff, hsqlite, true_and]
  rw [hagree, hmysql, hpostgresql]
  generalize storedDomains b = domains
  constructor
  · rintro ⟨hone, hexact⟩
    have hfew : (domains.filter fun domain => decide (DomainOf address domain)).length ≤ 1 := by
      by_contra hmany
      obtain ⟨domain, hmem⟩ := List.exists_mem_of_length_pos (by omega :
        0 < (domains.filter fun domain => decide (DomainOf address domain)).length)
      have hdomain := List.mem_filter.mp hmem
      exact hmany (Nat.le_of_eq (hone.mpr ⟨domain, hdomain.1, by simpa using hdomain.2⟩))
    refine ⟨hfew, fun domain hmem hdomain => ?_⟩
    obtain ⟨suffix, hsuffix⟩ := List.length_eq_one_iff.mp (hexact.mpr ⟨domain, hmem, hdomain⟩)
    have hmemSuffix : suffix ∈ domains.filter fun domain => decide (domain <:+ address) := by
      rw [hsuffix]
      exact List.mem_singleton_self suffix
    obtain ⟨hstored, his⟩ := List.mem_filter.mp hmemSuffix
    rw [decide_eq_true_eq] at his
    have hsame : domain = suffix := by
      obtain ⟨only, honly⟩ := List.length_eq_one_iff.mp (hone.mpr ⟨domain, hmem, hdomain⟩)
      have hin {d : CStr} (hd : d ∈ domains) (hof : DomainOf address d) : d = only := by
        have : d ∈ domains.filter fun domain => decide (DomainOf address domain) :=
          List.mem_filter.mpr ⟨hd, decide_eq_true hof⟩
        rw [honly] at this
        exact List.mem_singleton.mp this
      rw [hin hmem hdomain, hin hstored (domainOf_of_suffix his)]
    exact hsame ▸ his
  · rintro ⟨hfew, hcase⟩
    have hsame : (domains.filter fun domain => decide (domain <:+ address)) =
        domains.filter fun domain => decide (DomainOf address domain) := by
      refine List.filter_congr fun domain hmem => ?_
      rw [Bool.eq_iff_iff, decide_eq_true_iff, decide_eq_true_iff]
      exact ⟨domainOf_of_suffix, hcase domain hmem⟩
    have hone : (domains.filter fun domain => decide (DomainOf address domain)).length = 1 ↔
        ∃ domain ∈ domains, DomainOf address domain := by
      constructor
      · intro hlength
        obtain ⟨domain, hmem⟩ := List.exists_mem_of_length_pos (by omega :
          0 < (domains.filter fun domain => decide (DomainOf address domain)).length)
        have hdomain := List.mem_filter.mp hmem
        exact ⟨domain, hdomain.1, by simpa using hdomain.2⟩
      · rintro ⟨domain, hmem, hdomain⟩
        have hpos : 0 < (domains.filter fun domain => decide (DomainOf address domain)).length :=
          List.length_pos_of_mem (List.mem_filter.mpr ⟨hmem, decide_eq_true hdomain⟩)
        omega
    rw [hsame]
    exact ⟨hone, hone⟩

def domVal : GreyData := ⟨0, 0, 0, 0, -3⟩

def domainsDb (domains : List CStr) : Bdb :=
  { Bdb.empty with domains := domains.foldl (fun file domain => file.insert (.dom domain) domVal) ∅ }

def exampleAddress : CStr := "x@mail.example.org".toList

theorem drivers_agree_example :
    DriversAgree (domainsDb ["example.org".toList]) exampleAddress ↔
      ((storedDomains (domainsDb ["example.org".toList])).filter fun domain =>
        decide (DomainOf exampleAddress domain)).length ≤ 1 ∧
      ∀ domain ∈ storedDomains (domainsDb ["example.org".toList]),
        DomainOf exampleAddress domain → domain <:+ exampleAddress := by
  have hstored : storedDomains (domainsDb ["example.org".toList]) = ["example.org".toList] := by
    decide +kernel
  refine drivers_agree_iff fun domain hmem => literalAt_of_plain ?_ exampleAddress
  rw [hstored, List.mem_singleton] at hmem
  rw [hmem]
  decide +kernel

/-- Two domains that match, one in another case, and an underscore. -/
theorem drivers_differ :
    checkPartialDom (domainsDb ["example.org".toList, ".org".toList]) exampleAddress = true ∧
    Mysql.modDbGetDomPart (domainsDb ["example.org".toList, ".org".toList]) exampleAddress = false ∧
    Postgresql.modDbGetDomPart (domainsDb ["example.org".toList, ".org".toList]) exampleAddress =
      false ∧
    Postgresql.modDbGetDomPart (domainsDb ["EXAMPLE.org".toList]) exampleAddress = false ∧
    checkPartialDom (domainsDb ["m_il.example.org".toList]) exampleAddress = false ∧
    Sqlite.modDbGetDomPart (domainsDb ["m_il.example.org".toList]) exampleAddress = true := by
  decide +kernel

end Greyd
