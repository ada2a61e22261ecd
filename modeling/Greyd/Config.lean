import Greyd.Hash

/-!
# Configurations (config_value.c, config_section.c, greyd_config.c)

The same tables hold the configuration file and every message between the processes of
the daemon.
-/
namespace Greyd

inductive ConfigValue
  | int (i : Int)
  | str (s : CStr)
  | list (l : List ConfigValue)

structure ConfigSection where
  name : CStr
  vars : Hash ConfigValue

def configSecInitEntries : Nat := 25

def configSectionCreate (name : CStr) : ConfigSection := ⟨name, hashCreate configSecInitEntries⟩

def configSectionGet (section' : ConfigSection) (varname : CStr) : Option ConfigValue :=
  hashGet section'.vars varname

def configSectionSet (section' : ConfigSection) (varname : CStr) (value : ConfigValue) :
    ConfigSection :=
  { section' with vars := hashInsert section'.vars varname value }

def configSectionGetInt (section' : ConfigSection) (varname : CStr) (defaultInt : Int) : Int :=
  match configSectionGet section' varname with
  | some (.int i) => i
  | _ => defaultInt

def configSectionGetStr (section' : ConfigSection) (varname : CStr) (defaultStr : Option CStr) :
    Option CStr :=
  match configSectionGet section' varname with
  | some (.str s) => some s
  | _ => defaultStr

def configSectionGetList (section' : ConfigSection) (varname : CStr) : Option (List ConfigValue) :=
  match configSectionGet section' varname with
  | some (.list l) => some l
  | _ => none

def configInitSections : Nat := 8
def configInitIncludes : Nat := 3
def configDefaultSection : CStr := "default".toList

structure Config where
  sections : Hash ConfigSection
  blacklists : Hash ConfigSection
  whitelists : Hash ConfigSection
  /-- Every value is the counter 1. -/
  processedIncludes : Hash Unit
  includes : List CStr

def configCreate : Config :=
  ⟨hashCreate configInitSections, hashCreate configInitSections, hashCreate configInitSections,
    hashCreate configInitIncludes, []⟩

def configGetSection (config : Config) (sectionName : CStr) : Option ConfigSection :=
  hashGet config.sections sectionName

def configAddSection (config : Config) (section' : ConfigSection) : Config :=
  { config with sections := hashInsert config.sections section'.name section' }

/-- `Config_add_include`; `glob` is the expansion of a path, empty when glob(3) fails. -/
def configAddInclude (glob : CStr → List CStr) (config : Config) (file : CStr) : Config :=
  { config with includes := config.includes ++
      (glob file).filter fun path => (hashGet config.processedIncludes path).isNone }

/-! The getters take the name of a section, or NULL for the default section. -/

def configGetInt (config : Config) (varname : CStr) (sectionName : Option CStr)
    (defaultInt : Int) : Int :=
  match configGetSection config (sectionName.getD configDefaultSection) with
  | none => defaultInt
  | some s => configSectionGetInt s varname defaultInt

def configGetStr (config : Config) (varname : CStr) (sectionName : Option CStr)
    (defaultStr : Option CStr) : Option CStr :=
  match configGetSection config (sectionName.getD configDefaultSection) with
  | none => defaultStr
  | some s => configSectionGetStr s varname defaultStr

def configGetList (config : Config) (varname : CStr) (sectionName : Option CStr) :
    Option (List ConfigValue) :=
  match configGetSection config (sectionName.getD configDefaultSection) with
  | none => none
  | some s => configSectionGetList s varname

end Greyd
