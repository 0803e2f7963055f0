/-! # Well-known names

The classes, methods and fields that the machine itself refers to. -/

namespace JavaMachine

namespace ClassName

def object : String := "java/lang/Object"
def string : String := "java/lang/String"
def throwable : String := "java/lang/Throwable"
def system : String := "java/lang/System"
def printStream : String := "java/io/PrintStream"
def exception : String := "java/lang/Exception"
def error : String := "java/lang/Error"
def virtualMachineError : String := "java/lang/VirtualMachineError"
def outOfMemoryError : String := "java/lang/OutOfMemoryError"
def runtimeException : String := "java/lang/RuntimeException"
def arithmeticException : String := "java/lang/ArithmeticException"
def nullPointerException : String := "java/lang/NullPointerException"
def indexOutOfBoundsException : String := "java/lang/IndexOutOfBoundsException"
def arrayIndexOutOfBoundsException : String := "java/lang/ArrayIndexOutOfBoundsException"
def stringIndexOutOfBoundsException : String := "java/lang/StringIndexOutOfBoundsException"
def negativeArraySizeException : String := "java/lang/NegativeArraySizeException"
def classCastException : String := "java/lang/ClassCastException"
def arrayStoreException : String := "java/lang/ArrayStoreException"
def illegalArgumentException : String := "java/lang/IllegalArgumentException"

/-- A class name with dots between its parts. -/
def dotted (name : String) : String :=
  String.ofList (name.toList.map fun c => if c = '/' then '.' else c)

/-- A class name with slashes between its parts. -/
def slashed (name : String) : String :=
  String.ofList (name.toList.map fun c => if c = '.' then '/' else c)

end ClassName

namespace MemberName

/-- The name of constructors. -/
def constructor : String := "<init>"

/-- The name of the static initializer of a class. -/
def staticInitializer : String := "<clinit>"

/-- The field of a throwable that holds its message. -/
def detailMessage : String := "detailMessage"

/-- The field of a print stream that holds the number of its file. -/
def fileNumber : String := "fd"

end MemberName

end JavaMachine
