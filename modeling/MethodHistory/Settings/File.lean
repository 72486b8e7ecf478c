import MethodHistory.Settings.Basic
import MethodHistory.Text.Lines

/-!
This module contains the files of settings, which are JSON objects.
-/

namespace MethodHistory
namespace Settings

def readValues (path : String) (content : Except FileFault ByteArray)
    : Except SettingsFault Values := do
  let bytes ← content.mapError .unreadableFile
  let source := Text.lineFeeds (← (Text.Utf8.read bytes.toList).mapError .malformedText)
  match Json.read source with
  | .ok (.object members) => pure members
  | .ok _ => throw (.notAnObject path)
  | .error fault => throw (.malformedFile fault.complaint (fault.message source))

def unknownNames (values : Values) : List Text.Loose :=
  ((values.map (·.1)).filter (!isName ·)).eraseDups.mergeSort fun a b => !(b.points < a.points)

def warnings (path : String) (values : Values) : List String :=
  match unknownNames values with
  | [] => []
  | unknown =>
    ["Ignoring unknown config keys in " ++ path ++ ": ["
      ++ ", ".intercalate (unknown.map (·.quoted)) ++ "]"]

/--
The settings of a file under values that come before them, with the warnings about the file. Nulls
among these values do not count.
-/
def ofFile (environment : Json) (path : String) (content : Except FileFault ByteArray)
    (values : Values) : Except SettingsFault (Settings × List String) := do
  let members ← readValues path content
  let known := members.filter fun (name, _) => isName name
  let given := values.filter fun (_, value) => !(value matches .null)
  pure (← ofValues environment (known ++ given), warnings path members)

end Settings
end MethodHistory
