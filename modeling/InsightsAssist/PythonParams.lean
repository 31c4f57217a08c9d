import InsightsAssist.JsonTexts
import InsightsAssist.NativeJobs
import InsightsAssist.PythonLiterals

/-! The params on their way into a Python script: their JSON text stands between the quotes of a
string literal as it is, and Python takes the escapes of the text for its own. -/
namespace InsightsAssist.PythonParams
open Json NativeJobs

variable {ν : Type}

variable {numbers : Numbers ν} {params : Value ν}

end InsightsAssist.PythonParams
