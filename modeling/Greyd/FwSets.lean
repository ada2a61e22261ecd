import Greyd.ScanDrivers

/-!
# The sets of the firewall (grey.c, greyd.c)

A scan writes a message for each family to the firewall process, which replaces a set by
the addresses of the message.
-/
namespace Greyd

/-- The arguments of a call of `FW_replace`. -/
structure FwSet where
  name : CStr
  af : SaFamily
  ips : List CStr
  deriving DecidableEq

/-- `Greyd_process_fw_message` on a message that replaces a set: the call of `FW_replace` it
makes, if any. `checkAddr` is `IP_check_addr`. -/
def greydProcessReplace (checkAddr : CStr → Option SaFamily) (message : Config) : Option FwSet :=
  match configGetStr message "type".toList none none with
  | none => none
  | some type =>
    if type = "replace".toList then
      let name := (configGetStr message "name".toList none (some [])).getD []
      let af := BitVec.ofInt 16 (configGetInt message "af".toList none afInet.toNat)
      match configGetList message "ips".toList none with
      | none => none
      | some ips =>
        let whitelist := (ips.filterMap cvStr).filter fun addr => (checkAddr addr).isSome
        if whitelist = [] then none else some ⟨name, af, whitelist⟩
    else none

/-- The calls of `FW_replace` for so many messages, read through one stream. -/
def fwReplaces (checkAddr : CStr → Option SaFamily) (messages : Nat) (text : List Char) :
    Option (List FwSet) :=
  (parserRun (fun _ => []) messages (configParserCreate (configLexerCreate text))).map fun results =>
    results.filterMap fun r => if r.1 then greydProcessReplace checkAddr r.2.config else none

/-- A message that `update_firewall` writes. -/
structure FwMessage where
  name : QuotedStr
  af : SaFamily
  first : QuotedStr
  others : List QuotedStr

namespace FwMessage

def replace : QuotedStr := ⟨"replace".toList, by decide, by decide, by decide, by decide⟩

theorem isName_type : IsName "type".toList :=
  isName_of (by decide) (by decide) (by decide) (by decide)

theorem isName_af : IsName "af".toList :=
  isName_of (by decide) (by decide) (by decide) (by decide)

theorem isName_ips : IsName "ips".toList :=
  isName_of (by decide) (by decide) (by decide) (by decide)

theorem af_lt (af : SaFamily) : af.toNat < 2 ^ 31 := af.isLt.trans (by decide)

def lines (m : FwMessage) : Message where
  bindings := [
    ⟨"type".toList, isName_type, .str replace⟩,
    ⟨"name".toList, ConfigMessage.isName_name, .str m.name⟩,
    ⟨"af".toList, isName_af, .int m.af.toNat (af_lt m.af)⟩,
    ⟨"ips".toList, isName_ips, .list m.first m.others⟩]
  ne_nil := List.cons_ne_nil _ _

/-- The set the message asks for. -/
def set (m : FwMessage) : FwSet := ⟨m.name.text, m.af, (m.first :: m.others).map QuotedStr.text⟩

variable (m : FwMessage)

theorem lines_render : m.lines.render =
    updateFirewall m.name.text m.af ((m.first :: m.others).map QuotedStr.text) := by
  have htype : "type=\"replace\"\nname=\"".toList =
      "type".toList ++ '=' :: ("\"replace\"".toList ++ '\n' :: ("name".toList ++ ['=', '"'])) := rfl
  have haf : "\"\naf=".toList = '"' :: '\n' :: ("af".toList ++ ['=']) := rfl
  have hips : "\nips=[".toList = '\n' :: ("ips".toList ++ ['=', '[']) := rfl
  have hend : "]\n%\n".toList = ']' :: '\n' :: ['%', '\n'] := rfl
  have hreplace : replace.render = "\"replace\"".toList := rfl
  have hothers : (m.others.map QuotedStr.text).map quoted = m.others.map QuotedStr.render := by
    rw [List.map_map]
    rfl
  unfold updateFirewall
  rw [List.map_cons]
  dsimp only
  rw [htype, haf, hips, hend, ← hreplace, hothers]
  simp only [lines, Message.render, Binding.render, Field.render, List.flatMap_cons,
    List.flatMap_nil, List.append_assoc, List.cons_append, List.nil_append]
  simp only [QuotedStr.render, quoted, List.append_assoc, List.cons_append, List.nil_append]

theorem lines_lookup :
    m.lines.lookup "type".toList = some (.str "replace".toList) ∧
      m.lines.lookup "name".toList = some (.str m.name.text) ∧
      m.lines.lookup "af".toList = some (.int m.af.toNat) ∧
      m.lines.lookup "ips".toList = some (.list ((m.first :: m.others).map fun s => .str s.text)) :=
  ⟨rfl, rfl, rfl, rfl⟩

variable {m}

/-- The firewall process replaces the set by all addresses that `IP_check_addr` takes. -/
theorem processed {checkAddr : CStr → Option SaFamily} {config : Config} {section' : ConfigSection}
    (hheld : m.lines.HeldBy config section') (haddrs : ∀ ip ∈ m.set.ips, (checkAddr ip).isSome = true) :
    greydProcessReplace checkAddr config = some m.set := by
  obtain ⟨htype, hname, haf, hips⟩ := m.lines_lookup
  have hall : ((m.first :: m.others).map QuotedStr.text).filter (fun addr => (checkAddr addr).isSome) =
      (m.first :: m.others).map QuotedStr.text := List.filter_eq_self.mpr haddrs
  have hne : (m.first :: m.others).map QuotedStr.text ≠ [] := List.cons_ne_nil _ _
  unfold greydProcessReplace
  rw [hheld.getStr htype, hheld.getStr hname, hheld.getInt haf, hheld.getList hips]
  dsimp only
  rw [if_pos rfl, ConfigMessage.filterMap_cvStr, hall, if_neg hne, Option.getD_some,
    BitVec.ofInt_natCast, BitVec.ofNat_toNat, BitVec.setWidth_eq]
  rfl

end FwMessage

/-- Every message that is read makes its call. -/
theorem fwReplaces_of_messages {checkAddr : CStr → Option SaFamily} (msgs : List FwMessage)
    (haddrs : ∀ m ∈ msgs, ∀ ip ∈ m.set.ips, (checkAddr ip).isSome = true) :
    fwReplaces checkAddr msgs.length (msgs.flatMap fun m => m.lines.render) =
      some (msgs.map FwMessage.set) := by
  obtain ⟨results, hrun, hlen, hall⟩ := @parserRun_of_messages (fun _ => [])
    (msgs.map FwMessage.lines) (configParserCreate
      (configLexerCreate ((msgs.map FwMessage.lines).flatMap Message.render ++ []))) [] rfl rfl
  rw [List.append_nil, List.length_map, List.flatMap_map] at hrun
  rw [List.length_map] at hlen
  unfold fwReplaces
  rw [hrun, Option.map_some]
  have heach : results.map (fun r => if r.1 then greydProcessReplace checkAddr r.2.config else none) =
      msgs.map fun m => some m.set := by
    apply List.ext_getElem?
    intro i
    rw [List.getElem?_map, List.getElem?_map]
    by_cases hi : i < msgs.length
    · obtain ⟨parser, section', hget, -, hheld⟩ := hall i (by rwa [List.length_map])
      rw [List.getElem_map] at hheld
      rw [hget, List.getElem?_eq_getElem hi, Option.map_some, Option.map_some]
      dsimp only
      rw [if_pos rfl, FwMessage.processed hheld (haddrs _ (List.getElem_mem hi))]
    · rw [List.getElem?_eq_none (by omega), List.getElem?_eq_none (by omega)]
      rfl
  have hid : ∀ l : List (Bool × ConfigParser),
      l.filterMap (fun r => if r.1 then greydProcessReplace checkAddr r.2.config else none) =
        (l.map fun r => if r.1 then greydProcessReplace checkAddr r.2.config else none).filterMap id :=
    fun l => by rw [List.filterMap_map]; rfl
  rw [hid, heach, List.filterMap_map]
  exact congrArg some (congrFun List.filterMap_eq_map msgs)

end Greyd
