import JavaMachine.Native.System
import JavaMachine.Native.Text

/-! # The native methods of the built-in classes -/

namespace JavaMachine.Native

/-- The native methods that every machine has. -/
def table : NativeTable :=
  ObjectMethods.table ++ TextMethods.table ++ SystemMethods.table ++ StreamMethods.table
    ++ ThrowableMethods.table

end JavaMachine.Native
