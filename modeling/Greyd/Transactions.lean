import Greyd.ListedClients

/-!
# Transactions (con.c)

What of a connection that has said hello decides about its grey messages: how far its
transaction is, the two addresses, the destination, and the number of lines that were not
recognised. Each line leads from one transaction to the next.
-/
namespace Greyd

/-- How far the client is: it may name a sender, or a recipient only, or nothing any more. -/
inductive Stage
  | mail
  | rcpt
  | over
  deriving DecidableEq

structure Transaction where
  stage : Stage
  mail : List Char
  rcpt : List Char
  dst : CStr
  badCmd : Nat

/-- What stays as it is once the client has said hello. `greyed` tells whether greylisting is
enabled and no list attached. -/
structure Party where
  helo : CStr
  src : CStr
  proxied : Bool
  greyed : Bool

/-- A line of the client, and what `Con_get_orig_dst` gets when it is processed. -/
structure Said where
  line : CStr
  nat : NatReply
  deriving DecidableEq

/-- `match(con->in_buf, command)`. -/
def Said.hasCommand (said : Said) (command : CStr) : Bool := hasPrefixNocase said.line command

/-- The destination once it has been looked up. -/
def Party.dst (party : Party) (dst : CStr) (nat : NatReply) : CStr :=
  if party.proxied then dst else nat.elim dst fun dst => sstrncpy dst inet6AddrStrlen

namespace Transaction

variable (party : Party)

def takeMail (txn : Transaction) (line : CStr) : Transaction :=
  { txn with
    stage := .rcpt
    mail := normalizeEmailAddr (setLog greyMaxMail line) txn.mail greyMaxMail }

def takeRcpt (txn : Transaction) (line : CStr) : Transaction :=
  { txn with
    stage := .rcpt
    rcpt := normalizeEmailAddr (setLog greyMaxMail line) txn.rcpt greyMaxMail }

/-- A grey message is due. -/
def Due (txn : Transaction) : Prop :=
  cstr txn.mail ≠ [] ∧ cstr txn.rcpt ≠ [] ∧ party.greyed = true

instance (txn : Transaction) : Decidable (txn.Due party) := inferInstanceAs (Decidable (_ ∧ _ ∧ _))

def lookUp (txn : Transaction) (nat : NatReply) : Transaction :=
  if txn.Due party then { txn with dst := party.dst txn.dst nat } else txn

def message (txn : Transaction) : GreyMessage :=
  ⟨txn.dst, party.src, party.helo, cstr txn.mail, cstr txn.rcpt⟩

/-- What a line does to the transaction. -/
def hear (txn : Transaction) (said : Said) : Transaction :=
  if txn.stage = .over ∨ said.hasCommand "QUIT".toList then { txn with stage := .over }
  else if said.hasCommand "RSET".toList then { txn with stage := .mail }
  else if txn.stage = .mail ∧ said.hasCommand "MAIL".toList then txn.takeMail said.line
  else if said.hasCommand "RCPT".toList then (txn.takeRcpt said.line).lookUp party said.nat
  else if said.hasCommand "DATA".toList then { txn with stage := .over }
  else if said.hasCommand "NOOP".toList then txn
  else { txn with
    stage := if txn.badCmd + 1 > conMaxBadCmd then .over else txn.stage
    badCmd := txn.badCmd + 1 }

/-- The grey messages written for a line. -/
def emits (txn : Transaction) (said : Said) : List GreyMessage :=
  if txn.stage ≠ .over ∧ said.hasCommand "RCPT".toList ∧ (txn.takeRcpt said.line).Due party then
    [((txn.takeRcpt said.line).lookUp party said.nat).message party]
  else []

def hearAll (txn : Transaction) (lines : List Said) : Transaction := lines.foldl (hear party) txn

/-- The grey messages written for one line after the other. -/
def emitsAll (txn : Transaction) : List Said → List GreyMessage
  | [] => []
  | said :: rest => txn.emits party said ++ (txn.hear party said).emitsAll rest

variable {party} {txn : Transaction} {said : Said}

theorem emitsAll_append (lines rest : List Said) : txn.emitsAll party (lines ++ rest) =
    txn.emitsAll party lines ++ (txn.hearAll party lines).emitsAll party rest := by
  induction lines generalizing txn with
  | nil => rfl
  | cons said lines ih =>
    rw [List.cons_append, emitsAll, emitsAll, ih, List.append_assoc]
    rfl

theorem emitsAll_singleton (said : Said) : txn.emitsAll party [said] = txn.emits party said := by
  rw [emitsAll, emitsAll, List.append_nil]

/-- Where no client is greylisted. -/
theorem emitsAll_ungreyed (hgrey : party.greyed = false) (lines : List Said) :
    txn.emitsAll party lines = [] := by
  induction lines generalizing txn with
  | nil => rfl
  | cons said lines ih =>
    rw [emitsAll, ih, List.append_nil]
    exact if_neg fun h => Bool.false_ne_true (hgrey.symm.trans h.2.2.2.2)

/-- A line is one command only. -/
theorem hasCommand_other {a b : CStr} (h : said.hasCommand a = true) (hlen : b.length = a.length)
    (hne : b.map Char.toLower ≠ a.map Char.toLower) : said.hasCommand b = false := by
  unfold Said.hasCommand hasPrefixNocase at h ⊢
  rw [decide_eq_true_eq] at h
  rw [decide_eq_false_iff_not, hlen, h]
  exact hne.symm

theorem hear_rset (hopen : txn.stage ≠ .over) (h : said.hasCommand "RSET".toList = true) :
    txn.hear party said = { txn with stage := .mail } ∧ txn.emits party said = [] := by
  have hquit := hasCommand_other (b := "QUIT".toList) h (by decide) (by decide)
  have hrcpt := hasCommand_other (b := "RCPT".toList) h (by decide) (by decide)
  constructor
  · unfold hear
    rw [if_neg (by rw [hquit]; simpa using hopen), if_pos h]
  · exact if_neg fun hc => Bool.false_ne_true (hrcpt.symm.trans hc.2.1)

theorem hear_rcpt (hopen : txn.stage ≠ .over) (h : said.hasCommand "RCPT".toList = true) :
    txn.hear party said = (txn.takeRcpt said.line).lookUp party said.nat := by
  have hquit := hasCommand_other (b := "QUIT".toList) h (by decide) (by decide)
  have hrset := hasCommand_other (b := "RSET".toList) h (by decide) (by decide)
  have hmail := hasCommand_other (b := "MAIL".toList) h (by decide) (by decide)
  unfold hear
  rw [if_neg (by rw [hquit]; simpa using hopen), if_neg (by rw [hrset]; simp),
    if_neg (by rw [hmail]; simp), if_pos h]

theorem hear_mail (hstage : txn.stage = .mail) (h : said.hasCommand "MAIL".toList = true) :
    txn.hear party said = txn.takeMail said.line ∧ txn.emits party said = [] := by
  have hquit := hasCommand_other (b := "QUIT".toList) h (by decide) (by decide)
  have hrset := hasCommand_other (b := "RSET".toList) h (by decide) (by decide)
  have hrcpt := hasCommand_other (b := "RCPT".toList) h (by decide) (by decide)
  constructor
  · unfold hear
    rw [if_neg (by rw [hquit, hstage]; simp), if_neg (by rw [hrset]; simp), if_pos ⟨hstage, h⟩]
  · exact if_neg fun hc => Bool.false_ne_true (hrcpt.symm.trans hc.2.1)

end Transaction

/-! ## What is left of earlier addresses -/

/-- A buffer of mail addresses: a text, and nothing but NULs behind it. -/
structure MailText (buf : List Char) (s : CStr) : Prop where
  holds : HoldsMail buf s
  short : s.length < greyMaxMail

theorem MailText.ext {buf buf' : List Char} {s : CStr} (h : MailText buf s) (h' : MailText buf' s) :
    buf = buf' := by
  apply List.ext_getElem (h.holds.length.trans h'.holds.length.symm)
  intro i hi hi'
  have hget := (h.holds.getD i).trans (h'.holds.getD i).symm
  rwa [List.getD_eq_getElem _ _ hi, List.getD_eq_getElem _ _ hi'] at hget

theorem MailText.empty : MailText Con.zero.mail [] := ⟨.empty, by decide⟩

/-- The copy of an address covers the front of what was there. -/
theorem MailText.normalize {buf : List Char} {s arg : CStr} (h : MailText buf s)
    (harg : nul ∉ arg) (hshort : arg.length < greyMaxMail) :
    MailText (normalizeEmailAddr arg buf greyMaxMail)
      (normalForm arg ++ s.drop (normalForm arg).length) := by
  have hform : (normalForm arg).length < greyMaxMail := (normalForm_length_le arg).trans_lt hshort
  have hlen : (normalForm arg ++ s.drop (normalForm arg).length).length < greyMaxMail := by
    rw [List.length_append, List.length_drop]
    have := h.short
    omega
  have hbuf : (normalForm arg ++ buf.drop (normalForm arg).length).length = greyMaxMail := by
    rw [List.length_append, List.length_drop, h.holds.length]
    omega
  refine ⟨⟨?_, ?_, ?_⟩, hlen⟩
  · unfold normalizeEmailAddr
    rw [List.length_set, mailChars_eq, hbuf]
  · intro i
    unfold normalizeEmailAddr
    rw [mailChars_eq]
    by_cases hlast : i = greyMaxMail - 1
    · rw [hlast, List.getD_eq_getElem?_getD, List.getElem?_set_self (by rw [hbuf]; decide),
        getD_of_le (Nat.le_sub_one_of_lt hlen)]
      rfl
    · rw [List.getD_eq_getElem?_getD, List.getElem?_set_ne (Ne.symm hlast),
        ← List.getD_eq_getElem?_getD]
      rcases Nat.lt_or_ge i (normalForm arg).length with hfront | hback
      · rw [List.getD_append _ _ _ _ hfront, List.getD_append _ _ _ _ hfront]
      · rw [List.getD_append_right _ _ _ _ hback, List.getD_append_right _ _ _ _ hback,
          List.getD_eq_getElem?_getD, List.getElem?_drop, ← List.getD_eq_getElem?_getD,
          h.holds.getD, List.getD_eq_getElem?_getD, List.getD_eq_getElem?_getD, List.getElem?_drop]
  · intro hmem
    rcases List.mem_append.mp hmem with hnew | hold
    · exact nul_not_mem_normalForm harg hnew
    · exact h.holds.noNul (List.mem_of_mem_drop hold)

/-! ## Lines that tell two transactions apart -/

/-- The buffers of the transaction hold addresses. -/
structure Transaction.Texts (txn : Transaction) (mail rcpt : CStr) : Prop where
  mail : MailText txn.mail mail
  rcpt : MailText txn.rcpt rcpt

def plainSaid (line : CStr) : Said := ⟨line, none⟩

/-- One of them shows the sender, one the recipient, and one the destination. -/
def probes : List (List Said) :=
  [[plainSaid "RCPT TO:<x>".toList],
    [plainSaid "MAIL FROM:<a>".toList, plainSaid "RCPT TO:<>".toList],
    [plainSaid "MAIL FROM:<a>".toList, plainSaid "RCPT TO:<x>".toList]]

namespace Transaction

variable {party : Party} {txn : Transaction}

theorem lookUp_plain : txn.lookUp party none = txn := by
  have hdst : party.dst txn.dst none = txn.dst := by
    unfold Party.dst
    split <;> rfl
  unfold lookUp
  rw [hdst]
  split <;> rfl

theorem emits_rcpt {line : CStr} (hopen : txn.stage ≠ .over)
    (hrcpt : (plainSaid line).hasCommand "RCPT".toList = true) : txn.emits party (plainSaid line) =
      if (txn.takeRcpt line).Due party then [(txn.takeRcpt line).message party] else [] := by
  unfold emits
  rw [show (plainSaid line).nat = none from rfl, lookUp_plain]
  by_cases hdue : (txn.takeRcpt line).Due party
  · exact (if_pos ⟨hopen, hrcpt, hdue⟩).trans (if_pos hdue).symm
  · exact (if_neg fun h => hdue h.2.2).trans (if_neg hdue).symm

theorem Texts.takeMail {mail rcpt line : CStr} (h : txn.Texts mail rcpt)
    (harg : nul ∉ setLog greyMaxMail line) (hshort : (setLog greyMaxMail line).length < greyMaxMail) :
    (txn.takeMail line).Texts (normalForm (setLog greyMaxMail line) ++
      mail.drop (normalForm (setLog greyMaxMail line)).length) rcpt :=
  ⟨h.mail.normalize harg hshort, h.rcpt⟩

theorem Texts.takeRcpt {mail rcpt line : CStr} (h : txn.Texts mail rcpt)
    (harg : nul ∉ setLog greyMaxMail line) (hshort : (setLog greyMaxMail line).length < greyMaxMail) :
    (txn.takeRcpt line).Texts mail (normalForm (setLog greyMaxMail line) ++
      rcpt.drop (normalForm (setLog greyMaxMail line)).length) :=
  ⟨h.mail, h.rcpt.normalize harg hshort⟩

theorem Texts.due {mail rcpt : CStr} (h : txn.Texts mail rcpt) (hgrey : party.greyed = true) :
    txn.Due party ↔ mail ≠ [] ∧ rcpt ≠ [] := by
  unfold Due
  rw [h.mail.holds.cstr, h.rcpt.holds.cstr]
  simp [hgrey]

theorem Texts.message {mail rcpt : CStr} (h : txn.Texts mail rcpt) :
    txn.message party = ⟨txn.dst, party.src, party.helo, mail, rcpt⟩ := by
  unfold Transaction.message
  rw [h.mail.holds.cstr, h.rcpt.holds.cstr]

section Probes

variable {mail rcpt : CStr}

theorem Texts.emits_rcpt {line : CStr} (hopen : txn.stage ≠ .over)
    (hrcpt : (plainSaid line).hasCommand "RCPT".toList = true) {rcpt' : CStr}
    (h : (txn.takeRcpt line).Texts mail rcpt') (hgrey : party.greyed = true) :
    txn.emits party (plainSaid line) =
      if mail ≠ [] ∧ rcpt' ≠ [] then [⟨txn.dst, party.src, party.helo, mail, rcpt'⟩] else [] := by
  rw [Transaction.emits_rcpt hopen hrcpt, h.message]
  simp only [h.due hgrey]
  rfl

/-- A recipient is named right away. -/
theorem Texts.emits_sender (h : txn.Texts mail rcpt) (hgrey : party.greyed = true)
    (hopen : txn.stage ≠ .over) :
    txn.emitsAll party [plainSaid "RCPT TO:<x>".toList] =
      if mail ≠ [] then [⟨txn.dst, party.src, party.helo, mail, 'x' :: rcpt.drop 1⟩] else [] := by
  have htake : (txn.takeRcpt "RCPT TO:<x>".toList).Texts mail ('x' :: rcpt.drop 1) :=
    h.takeRcpt (by decide) (by decide)
  rw [emitsAll_singleton, Texts.emits_rcpt hopen (by decide) htake hgrey]
  simp

/-- A sender is named, and a recipient. -/
theorem Texts.emits_second (h : txn.Texts mail rcpt) (hgrey : party.greyed = true)
    (hstage : txn.stage = .mail) {line rcpt' : CStr}
    (hrcpt : (plainSaid line).hasCommand "RCPT".toList = true)
    (htake : ∀ {txn : Transaction} {mail}, txn.Texts mail rcpt → (txn.takeRcpt line).Texts mail rcpt') :
    txn.emitsAll party [plainSaid "MAIL FROM:<a>".toList, plainSaid line] =
      if rcpt' ≠ [] then [⟨txn.dst, party.src, party.helo, 'a' :: mail.drop 1, rcpt'⟩] else [] := by
  obtain ⟨hhear, hno⟩ := @hear_mail party txn (plainSaid "MAIL FROM:<a>".toList) hstage (by decide)
  have hmail : (txn.takeMail "MAIL FROM:<a>".toList).Texts ('a' :: mail.drop 1) rcpt :=
    h.takeMail (by decide) (by decide)
  have htaken := htake hmail
  rw [emitsAll, hno, List.nil_append, emitsAll_singleton, hhear,
    show (plainSaid "MAIL FROM:<a>".toList).line = "MAIL FROM:<a>".toList from rfl,
    Texts.emits_rcpt (by simp [Transaction.takeMail]) hrcpt htaken hgrey]
  simp [Transaction.takeMail]

end Probes

/-- Two transactions that have been reset, and that no probe tells apart. -/
theorem Texts.eq_of_probes {other : Transaction} {mail rcpt mail' rcpt' : CStr}
    (h : txn.Texts mail rcpt) (h' : other.Texts mail' rcpt') (hgrey : party.greyed = true)
    (hstage : txn.stage = .mail) (hstage' : other.stage = .mail)
    (hprobes : ∀ lines ∈ probes, txn.emitsAll party lines = other.emitsAll party lines) :
    mail = mail' ∧ rcpt = rcpt' ∧ txn.dst = other.dst := by
  have hopen : txn.stage ≠ .over := by rw [hstage]; decide
  have hopen' : other.stage ≠ .over := by rw [hstage']; decide
  have hkeeps : ∀ {txn : Transaction} {mail rcpt : CStr}, txn.Texts mail rcpt →
      (txn.takeRcpt "RCPT TO:<>".toList).Texts mail rcpt := fun h =>
    h.takeRcpt (by decide) (by decide)
  have htakes : ∀ {txn : Transaction} {mail rcpt : CStr}, txn.Texts mail rcpt →
      (txn.takeRcpt "RCPT TO:<x>".toList).Texts mail ('x' :: rcpt.drop 1) := fun h =>
    h.takeRcpt (by decide) (by decide)
  refine ⟨?_, ?_, ?_⟩
  · have hsender := hprobes [plainSaid "RCPT TO:<x>".toList] (by simp [probes])
    rw [h.emits_sender hgrey hopen, h'.emits_sender hgrey hopen'] at hsender
    by_cases hm : mail = [] <;> by_cases hm' : mail' = [] <;> simp [hm, hm'] at hsender ⊢
    exact hsender.2.1
  · have hrcpt := hprobes [plainSaid "MAIL FROM:<a>".toList, plainSaid "RCPT TO:<>".toList]
      (by simp [probes])
    rw [h.emits_second hgrey hstage (by decide) hkeeps,
      h'.emits_second hgrey hstage' (by decide) hkeeps] at hrcpt
    by_cases hr : rcpt = [] <;> by_cases hr' : rcpt' = [] <;> simp [hr, hr'] at hrcpt ⊢
    exact hrcpt.2.2
  · have hdst := hprobes [plainSaid "MAIL FROM:<a>".toList, plainSaid "RCPT TO:<x>".toList]
      (by simp [probes])
    rw [h.emits_second hgrey hstage (by decide) htakes,
      h'.emits_second hgrey hstage' (by decide) htakes] at hdst
    simp only [ne_eq, reduceCtorEq, not_false_eq_true, if_true, List.cons.injEq,
      GreyMessage.mk.injEq] at hdst
    exact hdst.1.1

end Transaction

end Greyd
